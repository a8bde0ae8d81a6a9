/-!
# Meters

How a staff counts time: the beats of a measure, the note value that gets one beat, and the
smallest note value that is told apart, the fidelity. A measure consists of steps, of which each
beat has at least one.

* `length_pos`: a measure has a step;
* `setSignature_setFidelity`: the numbers of a meter make it of any other.
-/

namespace Tablature

/-- A time signature and a fidelity. -/
structure Meter where
  /-- The beats of a measure. -/
  beats : Nat
  /-- The note value that gets one beat. -/
  dominant : Nat
  /-- The smallest note value that is told apart. -/
  fidelity : Nat
  beats_pos : 0 < beats
  dominant_pos : 0 < dominant
  fidelity_pos : 0 < fidelity
deriving DecidableEq, Repr

namespace Meter

/-- Four quarters in sixteenths, the meter that everything starts with. -/
def common : Meter := ⟨4, 4, 16, by decide, by decide, by decide⟩

/-- Numbers of a meter are positive: any other counts as one. -/
def atLeastOne (n : Int) : Nat := max 1 n.toNat

theorem atLeastOne_pos (n : Int) : 0 < atLeastOne n := by simp only [atLeastOne]; omega

def setSignature (beats dominant : Int) (m : Meter) : Meter :=
  { m with
    beats := atLeastOne beats
    dominant := atLeastOne dominant
    beats_pos := atLeastOne_pos beats
    dominant_pos := atLeastOne_pos dominant }

def setFidelity (fidelity : Int) (m : Meter) : Meter :=
  { m with
    fidelity := atLeastOne fidelity
    fidelity_pos := atLeastOne_pos fidelity }

/-- The steps of one beat. A fidelity coarser than the dominant beat still counts one. -/
def stepsPerBeat (m : Meter) : Nat := max 1 (m.fidelity / m.dominant)

/-- The steps of a measure. -/
def length (m : Meter) : Nat := m.beats * m.stepsPerBeat

theorem stepsPerBeat_pos (m : Meter) : 0 < m.stepsPerBeat := by simp only [stepsPerBeat]; omega

theorem length_pos (m : Meter) : 0 < m.length := Nat.mul_pos m.beats_pos m.stepsPerBeat_pos

theorem atLeastOne_of_pos {n : Nat} (h : 0 < n) : atLeastOne n = n := by
  simp only [atLeastOne]
  omega

/-- The numbers of a meter make it of any other. -/
theorem setSignature_setFidelity (m m' : Meter) :
    (m'.setSignature m.beats m.dominant).setFidelity m.fidelity = m := by
  simp [setSignature, setFidelity, atLeastOne_of_pos, m.beats_pos, m.dominant_pos, m.fidelity_pos]

end Meter

end Tablature
