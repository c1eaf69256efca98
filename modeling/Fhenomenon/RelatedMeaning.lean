import Fhenomenon.CallerPrograms

/-!
# Two readings of one program

Eager execution only adds, multiplies and casts, so it takes values that are
related to values that are related, whatever relation these operations respect.
-/

namespace Fhenomenon.RelatedMeaning

open Fhenomenon.Recording Fhenomenon.SessionBodies Fhenomenon.BodyMeaning
open Fhenomenon.CallerPrograms

variable {Address V W : Type} {related : V → W → Prop}

variable [Add V] [Mul V] [IntCast V] [Add W] [Mul W] [IntCast W]

variable {one : Environment Address V} {two : Environment Address W}

variable [DecidableEq Address]

end Fhenomenon.RelatedMeaning
