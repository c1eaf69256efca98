import Mathlib

/-!
# Shared owners

Holders share control blocks, and a control block releases its resource when its
last holder lets go of it. Over a change of all holders and the drops that
follow, each block that was ever held is released once.
-/

namespace Fhenomenon.Lib.SharedOwners

variable {ι κ : Type*} [DecidableEq κ]

/-- What is released when the holders of `order` let go, one after the other. -/
def dropReleases (holder : ι → Option κ) : List ι → List κ
  | [] => []
  | next :: rest =>
      match holder next with
      | none => dropReleases holder rest
      | some control =>
          if rest.any (fun other => holder other = some control) then dropReleases holder rest
          else control :: dropReleases holder rest

/-- What is released when the holders of `order` change their blocks. -/
def changeReleases (before after : ι → Option κ) (order : List ι) : List κ :=
  (order.filterMap before).dedup.filter fun control =>
    !order.any fun other => after other = some control

/-- The change, and then the drops. -/
def lifetimeReleases (before after : ι → Option κ) (order : List ι) : List κ :=
  changeReleases before after order ++ dropReleases after order

variable {before after : ι → Option κ} {order : List ι}

theorem mem_drop_releases (holder : ι → Option κ) (order : List ι) (control : κ) :
    control ∈ dropReleases holder order ↔ ∃ one ∈ order, holder one = some control := by
  induction order with
  | nil => simp [dropReleases]
  | cons next rest induction =>
      simp only [List.exists_mem_cons_iff]
      cases held : holder next with
      | none => simp [dropReleases, held, induction]
      | some other =>
          simp only [dropReleases, held, Option.some.injEq]
          split_ifs with shared
          · rw [induction]
            constructor
            · exact Or.inr
            · rintro (same | later)
              · rw [← same]
                simpa using shared
              · exact later
          · rw [List.mem_cons, induction, eq_comm]

theorem drop_releases_nodup (holder : ι → Option κ) (order : List ι) :
    (dropReleases holder order).Nodup := by
  induction order with
  | nil => exact List.nodup_nil
  | cons next rest induction =>
      cases held : holder next with
      | none =>
          simp only [dropReleases, held]
          exact induction
      | some control =>
          simp only [dropReleases, held]
          split_ifs with shared
          · exact induction
          · refine List.nodup_cons.mpr ⟨?_, induction⟩
            rw [mem_drop_releases]
            simpa using shared

theorem mem_change_releases (control : κ) :
    control ∈ changeReleases before after order ↔
      (∃ one ∈ order, before one = some control) ∧ ¬∃ one ∈ order, after one = some control := by
  simp [changeReleases]

theorem mem_lifetime_releases (control : κ) :
    control ∈ lifetimeReleases before after order ↔
      (∃ one ∈ order, before one = some control) ∨ ∃ one ∈ order, after one = some control := by
  rw [lifetimeReleases, List.mem_append, mem_change_releases, mem_drop_releases]
  constructor
  · exact Or.imp_left And.left
  · intro held
    by_cases kept : ∃ one ∈ order, after one = some control
    · exact Or.inr kept
    · exact Or.inl ⟨held.resolve_right kept, kept⟩

theorem lifetime_releases_nodup (before after : ι → Option κ) (order : List ι) :
    (lifetimeReleases before after order).Nodup := by
  refine List.nodup_append.mpr ⟨(List.nodup_dedup _).filter _, drop_releases_nodup after order, ?_⟩
  intro control changed other dropped same
  rw [← same, mem_drop_releases] at dropped
  exact (mem_change_releases control).mp changed |>.2 dropped

theorem resource_released_once {α : Type*} [DecidableEq α] (resource : κ → α)
    (single : ∀ first ∈ lifetimeReleases before after order,
      ∀ second ∈ lifetimeReleases before after order,
        resource first = resource second → first = second)
    {control : κ} (held : (∃ one ∈ order, before one = some control) ∨
      ∃ one ∈ order, after one = some control) :
    ((lifetimeReleases before after order).map resource).count (resource control) = 1 := by
  apply List.count_eq_one_of_mem
  · exact (lifetime_releases_nodup before after order).map_on single
  · exact List.mem_map_of_mem ((mem_lifetime_releases control).mpr held)

end Fhenomenon.Lib.SharedOwners
