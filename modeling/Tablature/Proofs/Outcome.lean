import Tablature.Outcome

/-!
# Runs of operations

* `runAll_append`: a run of two lists of operations is a run of the second after one of the first;
* `state_runAll`, `exists_of_fault_runAll`: a run performs every operation, or those before the one
  that stops it;
* `runAll_invariant`, `runAll_simulation`, `iterate_invariant`: what every operation keeps, a run
  keeps;
* `runAll_flatMap`: operations may be replaced by those that they are short for;
* `iterate_eq_runAll`: a repetition is a run of equal operations;
* `iterate_map`: an operation on a part of a state is repeated on the part;
* `iterate_induction`: what one operation does, its repetition does.
-/

namespace Tablature.Outcome

variable {ε ε' σ τ α : Type}

@[simp]
theorem state_stopped (s : σ) (e : ε) : (stopped s e).state = s := rfl

@[simp]
theorem fault_stopped (s : σ) (e : ε) : (stopped s e).fault = some e := rfl

@[simp]
theorem done_andThen (s : σ) (f : σ → Outcome ε σ) : (done s).andThen f = f s := rfl

@[simp]
theorem stopped_andThen (s : σ) (e : ε) (f : σ → Outcome ε σ) :
    (stopped s e).andThen f = stopped s e := rfl

@[simp]
theorem map_done (f : σ → τ) (g : ε → ε') (s : σ) : (done s).map f g = done (f s) := rfl

@[simp]
theorem map_stopped (f : σ → τ) (g : ε → ε') (s : σ) (e : ε) :
    (stopped s e).map f g = stopped (f s) (g e) := rfl

theorem eq_of_state_of_fault {o o' : Outcome ε σ} (hstate : o.state = o'.state)
    (hfault : o.fault = o'.fault) : o = o' := by
  obtain ⟨s, fault⟩ := o
  obtain rfl : s = o'.state := hstate
  obtain rfl : fault = o'.fault := hfault
  rfl

theorem done_ne_stopped (s t : σ) (e : ε) : done s ≠ stopped t e := nofun

theorem done_inj {s t : σ} : (done s : Outcome ε σ) = done t ↔ s = t :=
  ⟨congrArg state, congrArg done⟩

/-- What a run starts with decides it, if it ends in a fault. -/
theorem runAll_append (f : α → σ → Outcome ε σ) (as bs : List α) (s : σ) :
    runAll f (as ++ bs) s = (runAll f as s).andThen (runAll f bs) := by
  induction as generalizing s with
  | nil => rfl
  | cons a as ih =>
    rw [List.cons_append, runAll_cons, runAll_cons]
    rcases f a s with ⟨s', _ | e⟩
    · exact ih s'
    · rfl

/-- A run that is not stopped performs every operation. -/
theorem state_runAll {f : α → σ → Outcome ε σ} {as : List α} {s : σ}
    (h : (runAll f as s).fault = none) :
    (runAll f as s).state = as.foldl (fun s a => (f a s).state) s := by
  induction as generalizing s with
  | nil => rfl
  | cons a as ih =>
    rw [runAll_cons] at h ⊢
    rcases hf : f a s with ⟨s', _ | e⟩
    · rw [hf] at h
      rw [List.foldl_cons, hf]
      exact ih h
    · rw [hf] at h
      cases h

theorem fault_runAll_of_append {f : α → σ → Outcome ε σ} {as bs : List α} {s : σ}
    (h : (runAll f (as ++ bs) s).fault = none) : (runAll f as s).fault = none := by
  rw [runAll_append] at h
  rcases hf : runAll f as s with ⟨s', _ | e⟩
  · rfl
  · rw [hf] at h
    cases h

/-- A run that is stopped is stopped by one operation, and performs those before it. -/
theorem exists_of_fault_runAll {f : α → σ → Outcome ε σ} {as : List α} {s : σ} {e : ε}
    (h : (runAll f as s).fault = some e) :
    ∃ bs a cs, as = bs ++ a :: cs ∧ (runAll f bs s).fault = none ∧
      runAll f as s = f a (runAll f bs s).state := by
  induction as generalizing s with
  | nil => cases h
  | cons a as ih =>
    rw [runAll_cons] at h ⊢
    rcases hf : f a s with ⟨s', _ | e'⟩
    · rw [hf] at h
      obtain ⟨bs, b, cs, rfl, hbs, hrun⟩ := ih h
      have hcons : runAll f (a :: bs) s = runAll f bs s' := by
        rw [runAll_cons, hf]
        rfl
      exact ⟨a :: bs, b, cs, rfl, by rwa [hcons], by rw [hcons]; exact hrun⟩
    · exact ⟨[], a, as, rfl, rfl, hf.symm⟩

/-- What every operation keeps, stopped or not, a run keeps. -/
theorem runAll_invariant {f : α → σ → Outcome ε σ} {P : σ → Prop}
    (h : ∀ a s, P s → P (f a s).state) (as : List α) {s : σ} (hs : P s) :
    P (runAll f as s).state := by
  induction as generalizing s with
  | nil => exact hs
  | cons a as ih =>
    have ha := h a s hs
    rw [runAll_cons]
    rcases hf : f a s with ⟨s', _ | e⟩ <;> rw [hf] at ha
    · exact ih ha
    · exact ha

/-- Two outcomes agree, and two operations keep to it: so do the outcomes of going on. -/
theorem andThen_simulation {f : σ → Outcome ε σ} {g : τ → Outcome ε τ} {R : σ → τ → Prop}
    {o : Outcome ε σ} {o' : Outcome ε τ} (ho : R o.state o'.state ∧ o'.fault = o.fault)
    (h : ∀ s t, R s t → R (f s).state (g t).state ∧ (g t).fault = (f s).fault) :
    R (o.andThen f).state (o'.andThen g).state ∧
      (o'.andThen g).fault = (o.andThen f).fault := by
  obtain ⟨s, fault⟩ := o
  obtain ⟨t, fault'⟩ := o'
  obtain ⟨hst, rfl⟩ : R s t ∧ fault' = fault := ho
  cases fault' with
  | none => exact h s t hst
  | some e => exact ⟨hst, rfl⟩

/-- What every operation keeps between the states of two runs, the runs keep; they have the same
fault if the operations always have. -/
theorem runAll_simulation {f : α → σ → Outcome ε σ} {g : α → τ → Outcome ε τ} {R : σ → τ → Prop}
    (h : ∀ a s t, R s t → R (f a s).state (g a t).state ∧ (g a t).fault = (f a s).fault)
    (as : List α) {s : σ} {t : τ} (hst : R s t) :
    R (runAll f as s).state (runAll g as t).state ∧
      (runAll g as t).fault = (runAll f as s).fault := by
  induction as generalizing s t with
  | nil => exact ⟨hst, rfl⟩
  | cons a as ih =>
    rw [runAll_cons, runAll_cons]
    exact andThen_simulation (h a s t hst) fun s t => ih

theorem iterate_eq_runAll (f : α → σ → Outcome ε σ) (a : α) (n : Nat) (s : σ) :
    iterate (f a) n s = runAll f (List.replicate n a) s := by
  induction n generalizing s with
  | zero => rfl
  | succ n ih =>
    rw [iterate_succ, List.replicate_succ, runAll_cons]
    exact congrArg _ (funext ih)

theorem runAll_map {β : Type} (f : β → σ → Outcome ε σ) (g : α → β) (as : List α) (s : σ) :
    runAll f (as.map g) s = runAll (fun a => f (g a)) as s := by
  induction as generalizing s with
  | nil => rfl
  | cons a as ih =>
    rw [List.map_cons, runAll_cons, runAll_cons]
    exact congrArg _ (funext ih)

/-- Operations may be replaced by those that they are short for. -/
theorem runAll_flatMap {f : α → σ → Outcome ε σ} {expand : α → List α}
    (h : ∀ a s, runAll f (expand a) s = f a s) (as : List α) (s : σ) :
    runAll f (as.flatMap expand) s = runAll f as s := by
  induction as generalizing s with
  | nil => rfl
  | cons a as ih =>
    rw [List.flatMap_cons, runAll_append, runAll_cons, h]
    exact congrArg _ (funext ih)

theorem iterate_eq_done {f : σ → Outcome ε σ} {s : σ} (h : f s = done s) (n : Nat) :
    iterate f n s = done s := by
  induction n with
  | zero => rfl
  | succ n ih => rw [iterate_succ, h, done_andThen, ih]

/-- An operation on a part of a state is repeated on the part. -/
theorem iterate_map {f : σ → Outcome ε σ} {g : τ → Outcome ε τ} {whole : σ → τ}
    (h : ∀ s, g (whole s) = (f s).map whole id) (n : Nat) (s : σ) :
    iterate g n (whole s) = (iterate f n s).map whole id := by
  induction n generalizing s with
  | zero => rfl
  | succ n ih =>
    rw [iterate_succ, iterate_succ, h]
    rcases f s with ⟨s', _ | e⟩
    · exact ih s'
    · rfl

/-- What holds between a state and the outcome of an operation holds for its repetition, if it can
be carried on from operation to operation. -/
theorem iterate_induction {f : σ → Outcome ε σ} {R : σ → Outcome ε σ → Prop}
    (refl : ∀ s, R s (done s)) (trans : ∀ {s t o}, R s (done t) → R t o → R s o)
    (h : ∀ s, R s (f s)) (n : Nat) (s : σ) : R s (iterate f n s) := by
  induction n generalizing s with
  | zero => exact refl s
  | succ n ih =>
    have hs := h s
    rw [iterate_succ]
    rcases hf : f s with ⟨t, _ | e⟩
    · rw [hf] at hs
      exact trans hs (ih t)
    · rw [hf] at hs
      exact hs

/-- What an operation keeps, stopped or not, its repetition keeps. -/
theorem iterate_invariant {f : σ → Outcome ε σ} {P : σ → Prop} (h : ∀ s, P s → P (f s).state)
    (n : Nat) {s : σ} (hs : P s) : P (iterate f n s).state :=
  iterate_induction (R := fun s o => P s → P o.state) (fun _ => id) (fun ht ho => ho ∘ ht) h n s hs

end Tablature.Outcome
