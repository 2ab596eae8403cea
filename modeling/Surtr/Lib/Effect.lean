import Mathlib.Tactic.Basic

/-!
# Programs that may fail and keep their state when they do

`Eff ε σ α` returns an `α` or stops with an `ε`; the state it had reached survives
the failure.
-/

namespace Surtr.Lib

abbrev Eff (ε σ α : Type) := ExceptT ε (StateM σ) α

namespace Eff
variable {ε σ α β : Type} (m : Eff ε σ α)

def exec (s : σ) : Except ε α × σ := StateT.run (ExceptT.run m) s

def liftExcept (x : Except ε α) : Eff ε σ α := ExceptT.mk (pure x)

def reads (f : σ → α) : Eff ε σ α := ExceptT.mk fun s => (.ok (f s), s)

def update (f : σ → σ) : Eff ε σ Unit := ExceptT.mk fun s => (.ok (), f s)

def step (f : σ → Except ε α × σ) : Eff ε σ α := ExceptT.mk f

def attempt : Eff ε σ (Except ε α) :=
  step fun s => (.ok (exec m s).1, (exec m s).2)

@[simp]
theorem exec_pure (a : α) (s : σ) : exec (pure a : Eff ε σ α) s = (.ok a, s) := rfl

@[simp]
theorem exec_throw (e : ε) (s : σ) : exec (throw e : Eff ε σ α) s = (.error e, s) := rfl

@[simp]
theorem exec_liftExcept (x : Except ε α) (s : σ) : exec (liftExcept x) s = (x, s) := rfl

@[simp]
theorem exec_reads (f : σ → α) (s : σ) : exec (reads f : Eff ε σ α) s = (.ok (f s), s) := rfl

@[simp]
theorem exec_update (f : σ → σ) (s : σ) : exec (update f : Eff ε σ Unit) s = (.ok (), f s) := rfl

@[simp]
theorem exec_step (f : σ → Except ε α × σ) (s : σ) : exec (step f) s = f s := rfl

@[simp]
theorem exec_attempt (s : σ) : exec (attempt m) s = (.ok (exec m s).1, (exec m s).2) := rfl

theorem exec_bind (f : α → Eff ε σ β) (s : σ) : exec (m >>= f) s = match exec m s with
      | (.ok a, s') => exec (f a) s'
      | (.error e, s') => (.error e, s') := by
  change StateT.run (ExceptT.run (m >>= f)) s = _
  rw [ExceptT.run_bind, StateT.run_bind]
  change (match StateT.run (ExceptT.run m) s with
    | (r, s') => StateT.run (match r with
        | .ok a => ExceptT.run (f a)
        | .error e => pure (.error e)) s') = _
  unfold exec
  rcases StateT.run (ExceptT.run m) s with ⟨r, s'⟩
  cases r with
  | ok a => rfl
  | error e => rfl

variable {f : α → Eff ε σ β}

theorem exec_resume (f : α → Eff ε σ β) (s : σ) :
    exec (liftExcept (exec m s).1 >>= f) (exec m s).2 = exec (m >>= f) s := by
  rw [exec_bind, exec_bind]
  rfl

theorem exec_bind_ok {m : Eff ε σ α} {s s' : σ} {a : α}
    (h : exec m s = (.ok a, s')) : exec (m >>= f) s = exec (f a) s' := by
  rw [exec_bind, h]

theorem exec_bind_error {m : Eff ε σ α} {s s' : σ} {e : ε}
    (h : exec m s = (.error e, s')) : exec (m >>= f) s = (.error e, s') := by
  rw [exec_bind, h]

/-- From a state in `P`, a return lands in `Q` and a failure in `E`. -/
def Spec (P : σ → Prop) (m : Eff ε σ α) (Q : α → σ → Prop) (E : ε → σ → Prop) : Prop :=
  ∀ s, P s → match exec m s with
    | (.ok a, s') => Q a s'
    | (.error e, s') => E e s'

namespace Spec
variable {P P' : σ → Prop} {Q Q' : α → σ → Prop} {R : β → σ → Prop} {E E' : ε → σ → Prop}
  {m : Eff ε σ α}

theorem pure {a : α} (h : ∀ s, P s → Q a s) : Spec P (Pure.pure a : Eff ε σ α) Q E :=
  fun s hs => h s hs

theorem throw {e : ε} (h : ∀ s, P s → E e s) : Spec P (MonadExcept.throw e : Eff ε σ α) Q E :=
  fun s hs => h s hs

theorem reads {f : σ → α} (h : ∀ s, P s → Q (f s) s) : Spec P (Eff.reads f) Q E :=
  fun s hs => h s hs

theorem update {Q : Unit → σ → Prop} {f : σ → σ} (h : ∀ s, P s → Q () (f s)) :
    Spec P (Eff.update f : Eff ε σ Unit) Q E :=
  fun s hs => h s hs

variable {x : Except ε α}

theorem liftExcept (hok : ∀ a s, x = .ok a → P s → Q a s)
    (herr : ∀ e s, x = .error e → P s → E e s) : Spec P (Eff.liftExcept x) Q E := by
  intro s hs
  cases hx : x with
  | ok a => exact hok a s hx hs
  | error e => exact herr e s hx hs

theorem step {f : σ → Except ε α × σ} (h : ∀ s, P s → match f s with
      | (.ok a, s') => Q a s'
      | (.error e, s') => E e s') : Spec P (Eff.step f) Q E :=
  fun s hs => h s hs

theorem attempt {Q' : Except ε α → σ → Prop} (hm : Spec P m Q E)
    (hok : ∀ a s, Q a s → Q' (.ok a) s) (herr : ∀ e s, E e s → Q' (.error e) s) :
    Spec P (Eff.attempt m) Q' E' := by
  intro s hs
  have hm' := hm s hs
  rw [exec_attempt]
  rcases hrun : exec m s with ⟨r, s'⟩
  rw [hrun] at hm'
  cases r with
  | ok a => exact hok a s' hm'
  | error e => exact herr e s' hm'

theorem bind (hm : Spec P m Q E) (hf : ∀ a, Spec (Q a) (f a) R E) : Spec P (m >>= f) R E := by
  intro s hs
  have hfst := hm s hs
  rw [exec_bind]
  rcases hm' : exec m s with ⟨r, s'⟩
  rw [hm'] at hfst
  cases r with
  | ok a => exact hf a s' hfst
  | error e => exact hfst

theorem forM {ι : Type} {f : ι → Eff ε σ Unit} (h : ∀ i, Spec P (f i) (fun _ => P) E) (l : List ι) :
    Spec P (l.forM f) (fun _ => P) E := by
  induction l with
  | nil => exact fun s hs => hs
  | cons i rest ih =>
    change Spec P (f i >>= fun _ => rest.forM f) (fun _ => P) E
    exact bind (h i) fun _ => ih

theorem of_state {S : σ → Prop} (h : ∀ s, P s → S (exec m s).2) :
    Spec P m (fun _ => S) (fun _ => S) := by
  intro s hs
  have hfinal := h s hs
  rcases hm : exec m s with ⟨r, s'⟩
  rw [hm] at hfinal
  cases r with
  | ok a => exact hfinal
  | error e => exact hfinal

theorem and_const {c : Prop} (h : Spec P m Q E) :
    Spec (fun s => c ∧ P s) m (fun a s => c ∧ Q a s) (fun e s => c ∧ E e s) := by
  rintro s ⟨hc, hs⟩
  have hm := h s hs
  rcases hrun : exec m s with ⟨r, s'⟩
  rw [hrun] at hm
  cases r with
  | ok | error => exact ⟨hc, hm⟩

theorem conseq (h : Spec P m Q E) (hp : ∀ s, P' s → P s) (hq : ∀ a s, Q a s → Q' a s)
    (he : ∀ e s, E e s → E' e s) : Spec P' m Q' E' := by
  intro s hs
  have hm := h s (hp s hs)
  rcases hm' : exec m s with ⟨r, s'⟩
  rw [hm'] at hm
  cases r with
  | ok a => exact hq a s' hm
  | error e => exact he e s' hm

end Spec

/-- `m` keeps the invariant `I` whichever way it ends, its results are in `A`
and its failures in `B`. -/
def Keeps (I : σ → Prop) (B : ε → Prop) (A : α → Prop) (m : Eff ε σ α) : Prop :=
  Spec I m (fun a s => A a ∧ I s) (fun e s => B e ∧ I s)

def Within (B : ε → Prop) (A : α → Prop) : Except ε α → Prop
  | .ok a => A a
  | .error e => B e

namespace Within
variable {B : ε → Prop} {A : α → Prop} {C : β → Prop}

theorem bind {f : α → Except ε β} (hx : Within B A x)
    (hf : ∀ a, A a → Within B C (f a)) : Within B C (x >>= f) := by
  cases x with
  | ok a => exact hf a hx
  | error e => exact hx

theorem map {f : α → β} (hx : Within B A x) (hf : ∀ a, A a → C (f a)) : Within B C (x.map f) := by
  cases x with
  | ok a => exact hf a hx
  | error e => exact hx

end Within

namespace Keeps
variable {I : σ → Prop} {B : ε → Prop} {A A' : α → Prop} {C : β → Prop} {m : Eff ε σ α}

theorem pure {a : α} (h : A a) : Keeps I B A (Pure.pure a) := Spec.pure fun _ hs => ⟨h, hs⟩

theorem throw {e : ε} (h : B e) : Keeps I B A (MonadExcept.throw e) :=
  Spec.throw fun _ hs => ⟨h, hs⟩

theorem reads {f : σ → α} (h : ∀ s, I s → A (f s)) : Keeps I B A (Eff.reads f) :=
  Spec.reads fun s hs => ⟨h s hs, hs⟩

theorem update {f : σ → σ} (h : ∀ s, I s → I (f s)) : Keeps I B (fun _ => True) (Eff.update f) :=
  Spec.update fun s hs => ⟨trivial, h s hs⟩

theorem liftExcept (h : Within B A x) : Keeps I B A (Eff.liftExcept x) :=
  Spec.liftExcept (fun _ _ hx hs => ⟨by rw [hx] at h; exact h, hs⟩)
    (fun _ _ hx hs => ⟨by rw [hx] at h; exact h, hs⟩)

theorem step {f : σ → Except ε α × σ} (h : ∀ s, I s → Within B A (f s).1 ∧ I (f s).2) :
    Keeps I B A (Eff.step f) := by
  refine Spec.step fun s hs => ?_
  obtain ⟨hres, hstate⟩ := h s hs
  rcases hrun : f s with ⟨r, s'⟩
  rw [hrun] at hres hstate
  cases r with
  | ok | error => exact ⟨hres, hstate⟩

theorem attempt {B' : ε → Prop} (hm : Keeps I B A m) : Keeps I B' (Within B A) (Eff.attempt m) :=
  Spec.attempt hm (fun _ _ h => h) (fun _ _ h => h)

theorem bind (hm : Keeps I B A m) (hf : ∀ a, A a → Keeps I B C (f a)) : Keeps I B C (m >>= f) :=
  Spec.bind hm fun a s hs => hf a hs.1 s hs.2

theorem bind_reads {g : σ → α} (hf : ∀ a, Keeps I B C (f a)) : Keeps I B C (Eff.reads g >>= f) :=
  bind (A := fun _ => True) (reads fun _ _ => trivial) fun a _ => hf a

theorem conseq (hm : Keeps I B A m) (h : ∀ a, A a → A' a) : Keeps I B A' m :=
  Spec.conseq hm (fun _ hs => hs) (fun _ _ ⟨ha, hs⟩ => ⟨h _ ha, hs⟩) fun _ _ he => he

theorem of_exec (hm : Keeps I B A m) {s s' : σ} {r : Except ε α} (hexec : Eff.exec m s = (r, s'))
    (hs : I s) : Within B A r ∧ I s' := by
  have hrun := hm s hs
  rw [hexec] at hrun
  cases r with
  | ok | error => exact hrun

end Keeps

/-- Of a failure that is `excused` nothing is asked; every other one is `allowed`. -/
structure Failures (ε : Type) where
  excused : ε → Prop := fun _ => False
  allowed : ε → Prop := fun _ => True

/-- `x'` is the same answer as `x`, up to `Q` on results. -/
def Agrees {α' : Type} (B : Failures ε) (Q : α → α' → Prop) (x : Except ε α) (x' : Except ε α') :
    Prop :=
  match x with
  | .ok a => ∃ a', x' = .ok a' ∧ Q a a'
  | .error e => B.excused e ∨ B.allowed e ∧ x' = .error e

namespace Agrees
variable {α' β' : Type} {B : Failures ε} {Q : α → α' → Prop} {P : β → β' → Prop}

theorem refl {E : ε → Prop} (x : Except ε α) : Agrees { excused := E } Eq x x := by
  cases x with
  | ok a => exact ⟨a, rfl, rfl⟩
  | error e => exact .inr ⟨trivial, rfl⟩

theorem imp {x' : Except ε α'} {Q' : α → α' → Prop} (h : Agrees B Q x x')
    (hq : ∀ a a', Q a a' → Q' a a') : Agrees B Q' x x' := by
  cases x with
  | ok a =>
    obtain ⟨a', rfl, ha⟩ := h
    exact ⟨a', rfl, hq a a' ha⟩
  | error e => exact h

theorem of_within {A : α → Prop} (h : Within B.allowed A x) :
    Agrees B (fun a a' => a = a' ∧ A a) x x := by
  cases x with
  | ok a => exact ⟨a, rfl, rfl, h⟩
  | error e => exact .inr ⟨h, rfl⟩

theorem bind {x' : Except ε α'} {f : α → Except ε β} {f' : α' → Except ε β'}
    (hx : Agrees B Q x x') (hf : ∀ a a', Q a a' → Agrees B P (f a) (f' a')) :
    Agrees B P (x >>= f) (x' >>= f') := by
  cases x with
  | ok a =>
    obtain ⟨a', rfl, hq⟩ := hx
    exact hf a a' hq
  | error e =>
    rcases hx with hx | ⟨hx, rfl⟩
    · exact .inl hx
    · exact .inr ⟨hx, rfl⟩

end Agrees

/-- From `s'`, `m'` ends as `m` does from `s`. -/
def SimAt {α' : Type} (R S : σ → σ → Prop) (B : Failures ε) (Q : α → α' → Prop) (m : Eff ε σ α)
    (m' : Eff ε σ α') (s s' : σ) : Prop :=
  match exec m s with
  | (.ok a, t) => ∃ a' t', exec m' s' = (.ok a', t') ∧ Q a a' ∧ S t t'
  | (.error e, t) => B.excused e ∨ B.allowed e ∧ ∃ t', exec m' s' = (.error e, t') ∧ R t t'

def Sim {α' : Type} (R S : σ → σ → Prop) (B : Failures ε) (Q : α → α' → Prop) (m : Eff ε σ α)
    (m' : Eff ε σ α') : Prop :=
  ∀ s s', R s s' → SimAt R S B Q m m' s s'

namespace Sim
variable {R S T : σ → σ → Prop} {B : Failures ε} {α' β' : Type} {Q Q' : α → α' → Prop}
  {P : β → β' → Prop} {m : Eff ε σ α} {m' : Eff ε σ α'}

theorem pure {a : α} {a' : α'} (h : Q a a') :
    Sim R R B Q (Pure.pure a : Eff ε σ α) (Pure.pure a') :=
  fun _ s' hs => ⟨a', s', rfl, h, hs⟩

theorem throw {e : ε} (h : B.allowed e) :
    Sim R S B Q (MonadExcept.throw e : Eff ε σ α) (MonadExcept.throw e : Eff ε σ α') :=
  fun _ s' hs => .inr ⟨h, s', rfl, hs⟩

theorem excused {e : ε} (h : B.excused e) : Sim R S B Q (MonadExcept.throw e : Eff ε σ α) m' :=
  fun _ _ _ => .inl h

theorem liftExcept {x' : Except ε α'} (h : Agrees B Q x x') :
    Sim R R B Q (Eff.liftExcept x) (Eff.liftExcept x') := by
  intro s s' hs
  cases x with
  | ok a =>
    obtain ⟨a', rfl, hq⟩ := h
    exact ⟨a', s', rfl, hq, hs⟩
  | error e =>
    rcases h with h | ⟨h, rfl⟩
    · exact .inl h
    · exact .inr ⟨h, s', rfl, hs⟩

theorem reads {f : σ → α} {f' : σ → α'} (h : ∀ s s', R s s' → Q (f s) (f' s')) :
    Sim R R B Q (Eff.reads f : Eff ε σ α) (Eff.reads f') :=
  fun s s' hs => ⟨f' s', s', rfl, h s s' hs, hs⟩

theorem update {f f' : σ → σ} (h : ∀ s s', R s s' → S (f s) (f' s')) :
    Sim R S B Eq (Eff.update f : Eff ε σ Unit) (Eff.update f') :=
  fun s s' hs => ⟨(), f' s', rfl, rfl, h s s' hs⟩

theorem step {f : σ → Except ε α × σ} {f' : σ → Except ε α' × σ}
    (h : ∀ s s', R s s' → match f s with
      | (.ok a, t) => ∃ a' t', f' s' = (.ok a', t') ∧ Q a a' ∧ S t t'
      | (.error e, t) =>
        B.excused e ∨ B.allowed e ∧ ∃ t', f' s' = (.error e, t') ∧ R t t') :
    Sim R S B Q (Eff.step f) (Eff.step f') := h

theorem bindAt {f' : α' → Eff ε σ β'} (hm : Sim R S B Q m m')
    (hf : ∀ a a' t t', Q a a' → S t t' → SimAt R T B P (f a) (f' a') t t') :
    Sim R T B P (m >>= f) (m' >>= f') := by
  intro s s' hs
  have hfst := hm s s' hs
  unfold SimAt at hfst ⊢
  rw [exec_bind]
  rcases hexec : exec m s with ⟨e | a, s₁⟩
  · rw [hexec] at hfst
    rcases hfst with hB | ⟨hB, t', hexec', ht⟩
    · exact .inl hB
    · exact .inr ⟨hB, t', exec_bind_error hexec', ht⟩
  · rw [hexec] at hfst
    obtain ⟨a', s₁', hexec', hq, hs₁⟩ := hfst
    rw [exec_bind_ok hexec']
    exact hf a a' s₁ s₁' hq hs₁

theorem bind {f' : α' → Eff ε σ β'} (hm : Sim R R B Q m m')
    (hf : ∀ a a', Q a a' → Sim R S B P (f a) (f' a')) : Sim R S B P (m >>= f) (m' >>= f') :=
  hm.bindAt fun a a' t t' hq ht => hf a a' hq t t' ht

theorem bind_pure {f : α → β} {f' : α' → β'} (hm : Sim R S B Q m m')
    (hf : ∀ a a', Q a a' → P (f a) (f' a')) :
    Sim R S B P (m >>= fun a => Pure.pure (f a)) (m' >>= fun a => Pure.pure (f' a)) :=
  hm.bindAt fun a a' _ t' hq ht => ⟨f' a', t', rfl, hf a a' hq, ht⟩

theorem conseq (h : Sim R S B Q m m') (hq : ∀ a a', Q a a' → Q' a a')
    (hS : ∀ s s', S s s' → T s s') : Sim R T B Q' m m' := by
  intro s s' hs
  have hm := h s s' hs
  unfold SimAt at hm ⊢
  rcases hexec : exec m s with ⟨e | a, t⟩
  · rw [hexec] at hm
    exact hm
  rw [hexec] at hm
  obtain ⟨a', t', hexec', ha, ht⟩ := hm
  exact ⟨a', t', hexec', hq a a' ha, hS t t' ht⟩

/-- A program that is in step with itself keeps what it relates. -/
theorem keeps {I : σ → Prop} {C : ε → Prop} (h : Sim (fun s s' => s' = s ∧ I s)
      (fun s s' => s' = s ∧ I s) { allowed := C } Q m m') :
    Keeps I C (fun a => ∃ a', Q a a') m := by
  intro s hs
  have hm := h s s ⟨rfl, hs⟩
  unfold SimAt at hm
  rcases hexec : exec m s with ⟨e | a, t⟩
  · rw [hexec] at hm
    obtain ⟨hC, t', -, -, ht⟩ := hm.resolve_left not_false
    exact ⟨hC, ht⟩
  · rw [hexec] at hm
    obtain ⟨a', t', -, hq, -, ht⟩ := hm
    exact ⟨⟨a', hq⟩, ht⟩

end Sim

end Eff

end Surtr.Lib
