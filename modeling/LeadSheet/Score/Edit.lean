import LeadSheet.Score.Basic

/-!
# Editing a score

Changes to a score that is held: the volume and pan of a track, the volume of a drum track,
sections put in and taken out. Positions are counted from the start; a negative position is counted
from the end, and one beyond the list means its end.
-/

namespace LeadSheet

/-- The place in a list of so many items that a position means. -/
def placeOf (length : Nat) (position : Int) : Nat :=
  if position < 0 then (length + position).toNat else Nat.min position.toNat length

namespace Score

variable {α : Type}

/-- Puts a section in at a position. -/
def insertSection (score : Score α) (position : Int) (added : Section α) : Score α :=
  let place := placeOf score.sections.length position
  { score with
    sections := score.sections.take place ++ added :: score.sections.drop place }

/-- Takes out the section at a position, if there is one. -/
def removeSection (score : Score α) (position : Int) : Score α :=
  { score with sections := score.sections.eraseIdx (placeOf score.sections.length position) }

/-- Gives a track another volume or pan; none if the score has no such track. -/
def mix? (score : Score α) (sectionIndex trackIndex : Nat) (volume pan : Option α) :
    Option (Track α × Score α) :=
  match score.sections[sectionIndex]? with
  | none => none
  | some s =>
    match s.tracks[trackIndex]? with
    | none => none
    | some t =>
      let mixed := { t with volume := volume.getD t.volume, pan := pan.getD t.pan }
      let changed := { s with tracks := s.tracks.set trackIndex mixed }
      some (mixed, { score with sections := score.sections.set sectionIndex changed })

/-- Gives a section's drums another volume; none if the section has no drums. -/
def setDrumVolume? (score : Score α) (sectionIndex : Nat) (volume : α) : Option (Score α) :=
  match score.sections[sectionIndex]? with
  | none => none
  | some s =>
    s.drums.map fun drums =>
      let changed := { s with drums := some { drums with volume := volume } }
      { score with sections := score.sections.set sectionIndex changed }

end Score

end LeadSheet
