import Mathlib.Tactic.Common

/-!
# Programs with fuel and a trace

A program reads and writes a state, reports events, and may stop because its fuel has run out. The
state and the events are kept then too.

* `Program` — the programs, as a monad
* `Program.loop` — a loop, with one unit of fuel for each iteration
* `Program.Sim` — two programs that keep a relation between their states, as long as the second one
  reports nothing wrong; the rules follow the shape of the programs
* `Program.Ends`, `Program.Yields` — what one program comes to, from all states of a kind
* `Program.Ensures`, `Program.Keeps` — what holds when a program comes to a result, and invariants
-/

namespace Infra

/-- What a run comes to: the result, unless the fuel has run out, the state and the events. -/
structure Outcome (σ ε α : Type) where
  result : Option α
  state : σ
  trace : List ε

/-- A program over the state `σ` with the events `ε`. -/
def Program (σ ε α : Type) : Type := σ → Outcome σ ε α

namespace Program

variable {σ τ δ ε α β γ κ : Type}

/-- The state and the events of what comes first are those of the whole so far. -/
protected def bind (m : Program σ ε α) (f : α → Program σ ε β) : Program σ ε β := fun s =>
  match m s with
  | ⟨none, t, l⟩ => ⟨none, t, l⟩
  | ⟨some a, t, l⟩ =>
    match f a t with
    | ⟨r, u, l'⟩ => ⟨r, u, l ++ l'⟩

instance : Monad (Program σ ε) where
  pure a s := ⟨some a, s, []⟩
  bind := Program.bind

def outOfFuel : Program σ ε α := fun s => ⟨none, s, []⟩

def state : Program σ ε σ := fun s => ⟨some s, s, []⟩

def update (f : σ → σ) : Program σ ε Unit := fun s => ⟨some (), f s, []⟩

def emit (e : ε) : Program σ ε Unit := fun s => ⟨some (), s, [e]⟩

/-- A loop: `inl` goes on and `inr` leaves it. -/
def loop (body : β → Program σ ε (β ⊕ α)) : Nat → β → Program σ ε α
  | 0, _ => outOfFuel
  | n + 1, b => do
    match ← body b with
    | .inl b' => loop body n b'
    | .inr a => pure a

variable {m : Program σ ε α} {f : α → Program σ ε β} {s : σ} {l : List ε} {a : α}

theorem eq_of_result (h : (m s).result = some a) : m s = ⟨some a, (m s).state, (m s).trace⟩ := by
  rw [← h]

@[simp] theorem pure_apply (a : α) (s : σ) : (pure a : Program σ ε α) s = ⟨some a, s, []⟩ := rfl

@[simp] theorem state_apply (s : σ) : (state : Program σ ε σ) s = ⟨some s, s, []⟩ := rfl

@[simp] theorem update_apply (f : σ → σ) (s : σ) :
    (update f : Program σ ε Unit) s = ⟨some (), f s, []⟩ := rfl

@[simp] theorem emit_apply (e : ε) (s : σ) : (emit e : Program σ ε Unit) s = ⟨some (), s, [e]⟩ := rfl

theorem bind_apply (m : Program σ ε α) (f : α → Program σ ε β) (s : σ) :
    (m >>= f) s =
      match m s with
      | ⟨none, t, l⟩ => ⟨none, t, l⟩
      | ⟨some a, t, l⟩ => ⟨(f a t).result, (f a t).state, l ++ (f a t).trace⟩ := rfl

theorem bind_of_none (h : (m s).result = none) :
    (m >>= f) s = ⟨none, (m s).state, (m s).trace⟩ := by
  rw [bind_apply]
  split
  · next h' => rw [h']
  · next h' => simp [h'] at h

theorem bind_of_some (h : (m s).result = some a) :
    (m >>= f) s = ⟨(f a (m s).state).result, (f a (m s).state).state,
      (m s).trace ++ (f a (m s).state).trace⟩ := by
  rw [bind_apply]
  split
  · next h' => simp [h'] at h
  · next h' =>
    rw [h'] at h ⊢
    cases h
    rfl

theorem map_apply (g : α → β) (m : Program σ ε α) (s : σ) :
    (g <$> m) s = ⟨(m s).result.map g, (m s).state, (m s).trace⟩ := by
  show (m >>= fun a => pure (g a)) s = _
  cases h : (m s).result with
  | none => rw [bind_of_none h, Option.map_none]
  | some a => rw [bind_of_some h, pure_apply, List.append_nil, Option.map_some]

/-- What comes first has its events at the front of the trace. -/
theorem trace_bind (m : Program σ ε α) (f : α → Program σ ε β) (s : σ) :
    ∃ l, ((m >>= f) s).trace = (m s).trace ++ l := by
  cases h : (m s).result with
  | none => exact ⟨[], by rw [bind_of_none h, List.append_nil]⟩
  | some a => exact ⟨_, by rw [bind_of_some h]⟩

section Loop

variable {body : β → Program σ ε (β ⊕ α)} {b b' : β}

theorem loop_of_none (h : (body b s).result = none) (n : Nat) :
    (loop body (n + 1) b s).result = none := by
  rw [loop, bind_of_none h]

/-- The loop goes on. -/
theorem loop_of_inl (h : (body b s).result = some (.inl b')) (n : Nat) :
    (loop body (n + 1) b s).result = (loop body n b' (body b s).state).result ∧
      (loop body (n + 1) b s).state = (loop body n b' (body b s).state).state := by
  rw [loop, bind_of_some h]
  exact ⟨rfl, rfl⟩

/-- The loop ends. -/
theorem loop_of_inr (h : (body b s).result = some (.inr a)) (n : Nat) :
    (loop body (n + 1) b s).result = some a ∧
      (loop body (n + 1) b s).state = (body b s).state := by
  rw [loop, bind_of_some h]
  exact ⟨rfl, rfl⟩

end Loop

/-! ## Two programs in step -/

/-- The two runs both have a result, and `Q` holds of the results, the trace and the states; or
neither has one. -/
def Matches (Q : α → β → List ε → σ → τ → Prop) (l : List ε) (o : Outcome σ δ α)
    (o' : Outcome τ ε β) : Prop :=
  match o.result, o'.result with
  | some a, some b => Q a b l o.state o'.state
  | none, none => True
  | _, _ => False

/-- **Relational correctness.** From states that `P` relates, the two programs match in `Q`, in
every run of the second one whose trace is `fine`. The list is the trace before. -/
def Sim (fine : List ε → Prop) (P : List ε → σ → τ → Prop) (m : Program σ δ α)
    (m' : Program τ ε β) (Q : α → β → List ε → σ → τ → Prop) : Prop :=
  ∀ l s t, P l s t → fine (l ++ (m' t).trace) → Matches Q (l ++ (m' t).trace) (m s) (m' t)

variable {fine : List ε → Prop} {P P' : List ε → σ → τ → Prop} {m : Program σ δ α}
  {m' : Program τ ε β} {Q Q' : α → β → List ε → σ → τ → Prop}

theorem Matches.mono {o : Outcome σ δ α} {o' : Outcome τ ε β} (h : Matches Q l o o')
    (hQ : ∀ a b l s t, Q a b l s t → Q' a b l s t) : Matches Q' l o o' := by
  unfold Matches at h ⊢
  split at h
  · exact hQ _ _ _ _ _ h
  · trivial
  · exact h

theorem Sim.conseq (h : Sim fine P m m' Q) (hP : ∀ l s t, P' l s t → P l s t)
    (hQ : ∀ a b l s t, Q a b l s t → Q' a b l s t) : Sim fine P' m m' Q' :=
  fun l s t hp hfine => (h l s t (hP l s t hp) hfine).mono hQ

theorem Sim.post (h : Sim fine P m m' Q) (hQ : ∀ a b l s t, Q a b l s t → Q' a b l s t) :
    Sim fine P m m' Q' :=
  h.conseq (fun _ _ _ hp => hp) hQ

theorem Sim.pre (h : Sim fine P m m' Q) (hP : ∀ l s t, P' l s t → P l s t) : Sim fine P' m m' Q :=
  h.conseq hP fun _ _ _ _ _ hq => hq

/-- Runs of the second program that are never fine match anything. -/
theorem Sim.of_not_fine (h : ∀ l s t, P l s t → ¬ fine (l ++ (m' t).trace)) :
    Sim fine P m m' Q :=
  fun l s t hp hfine => absurd hfine (h l s t hp)

theorem Sim.pure {a : α} {b : β} (h : ∀ l s t, P l s t → Q a b l s t) :
    Sim fine P (pure a : Program σ δ α) (pure b : Program τ ε β) Q := by
  intro l s t hp _
  show Q a b (l ++ []) s t
  rw [List.append_nil]
  exact h l s t hp

theorem Sim.outOfFuel : Sim fine P (outOfFuel : Program σ δ α) (outOfFuel : Program τ ε β) Q :=
  fun _ _ _ _ _ => trivial

theorem Sim.update {f : σ → σ} {g : τ → τ} {Q : Unit → Unit → List ε → σ → τ → Prop}
    (h : ∀ l s t, P l s t → Q () () l (f s) (g t)) :
    Sim fine P (update f : Program σ δ Unit) (update g : Program τ ε Unit) Q := by
  intro l s t hp _
  show Q () () (l ++ []) (f s) (g t)
  rw [List.append_nil]
  exact h l s t hp

theorem Sim.emit {d : δ} {e : ε} {Q : Unit → Unit → List ε → σ → τ → Prop}
    (h : ∀ l s t, P l s t → fine (l ++ [e]) → Q () () (l ++ [e]) s t) :
    Sim fine P (emit d : Program σ δ Unit) (emit e : Program τ ε Unit) Q :=
  fun l s t hp hfine => h l s t hp hfine

/-- **Sequence.** -/
theorem Sim.bind {f : α → Program σ δ γ} {f' : β → Program τ ε κ}
    {R : γ → κ → List ε → σ → τ → Prop} (hclosed : ∀ l l', fine (l ++ l') → fine l)
    (h : Sim fine P m m' Q) (hf : ∀ a b, Sim fine (Q a b) (f a) (f' b) R) :
    Sim fine P (m >>= f) (m' >>= f') R := by
  intro l s t hp hfine
  obtain ⟨l', hl'⟩ := trace_bind m' f' t
  have hfirst : fine (l ++ (m' t).trace) := by
    rw [hl', ← List.append_assoc] at hfine
    exact hclosed _ _ hfine
  have hm := h l s t hp hfirst
  unfold Matches at hm
  split at hm
  · next a b ha hb =>
    rw [bind_of_some hb] at hfine ⊢
    rw [bind_of_some ha]
    simp only [← List.append_assoc] at hfine ⊢
    exact hf a b _ _ _ hm hfine
  · next ha hb =>
    rw [bind_of_none ha, bind_of_none hb]
    trivial
  · exact hm.elim

theorem Sim.map {f : α → γ} {g : β → κ} {R : γ → κ → List ε → σ → τ → Prop}
    (hclosed : ∀ l l', fine (l ++ l') → fine l)
    (h : Sim fine P m m' fun a b => R (f a) (g b)) : Sim fine P (f <$> m) (g <$> m') R :=
  Sim.bind hclosed h fun _ _ => Sim.pure fun _ _ _ hq => hq

theorem Sim.ite {c : Prop} [Decidable c] {m₁ m₂ : Program σ δ α} {m₁' m₂' : Program τ ε β}
    (h₁ : c → Sim fine P m₁ m₁' Q) (h₂ : ¬ c → Sim fine P m₂ m₂' Q) :
    Sim fine P (if c then m₁ else m₂) (if c then m₁' else m₂') Q := by
  split
  · next hc => exact h₁ hc
  · next hc => exact h₂ hc

theorem Sim.ite_right {c : Prop} [Decidable c] {m₁' m₂' : Program τ ε β}
    (h₁ : c → Sim fine P m m₁' Q) (h₂ : ¬ c → Sim fine P m m₂' Q) :
    Sim fine P m (if c then m₁' else m₂') Q := by
  split
  · next hc => exact h₁ hc
  · next hc => exact h₂ hc

/-- What one iteration establishes: the invariant for the next one, or the end of the loop. -/
def LoopPost (I : γ → κ → List ε → σ → τ → Prop) (Q : α → β → List ε → σ → τ → Prop) :
    γ ⊕ α → κ ⊕ β → List ε → σ → τ → Prop
  | .inl c, .inl k => I c k
  | .inr a, .inr b => Q a b
  | _, _ => fun _ _ _ => False

/-- **The loop rule**, by induction on the fuel. -/
theorem Sim.loop {body : γ → Program σ δ (γ ⊕ α)} {body' : κ → Program τ ε (κ ⊕ β)}
    {I : γ → κ → List ε → σ → τ → Prop} (hclosed : ∀ l l', fine (l ++ l') → fine l)
    (h : ∀ c k, Sim fine (I c k) (body c) (body' k) (LoopPost I Q)) (n : Nat) :
    ∀ c k, Sim fine (I c k) (loop body n c) (loop body' n k) Q := by
  induction n with
  | zero => exact fun _ _ => Sim.outOfFuel
  | succ n ih =>
    refine fun c k => Sim.bind hclosed (h c k) ?_
    rintro (c' | a) (k' | b)
    · exact ih c' k'
    · exact Sim.of_not_fine fun _ _ _ hf => hf.elim
    · exact Sim.of_not_fine fun _ _ _ hf => hf.elim
    · exact Sim.pure fun _ _ _ hq => hq

/-! ## One program on two states -/

/-- The program gives equal results on related states and keeps the relation. -/
def Agrees (fine : List ε → Prop) (P : List ε → σ → σ → Prop) (m : Program σ ε α) : Prop :=
  Sim fine P m m fun a b l s t => a = b ∧ P l s t

variable {P : List ε → σ → σ → Prop} {m : Program σ ε α}

theorem Agrees.pure (a : α) : Agrees fine P (pure a : Program σ ε α) :=
  Sim.pure fun _ _ _ hp => ⟨rfl, hp⟩

theorem Agrees.then {f : α → Program σ ε β} {f' : α → Program σ ε γ}
    {R : β → γ → List ε → σ → σ → Prop} (hclosed : ∀ l l', fine (l ++ l') → fine l)
    (h : Agrees fine P m) (hf : ∀ a, Sim fine P (f a) (f' a) R) :
    Sim fine P (m >>= f) (m >>= f') R := by
  refine Sim.bind hclosed h fun a b => ?_
  intro l s t hq hfine
  obtain ⟨rfl, hp⟩ := hq
  exact hf a l s t hp hfine

theorem Agrees.bind {f : α → Program σ ε β} (hclosed : ∀ l l', fine (l ++ l') → fine l)
    (h : Agrees fine P m) (hf : ∀ a, Agrees fine P (f a)) : Agrees fine P (m >>= f) :=
  h.then hclosed hf

theorem Agrees.map {f : α → β} (hclosed : ∀ l l', fine (l ++ l') → fine l)
    (h : Agrees fine P m) : Agrees fine P (f <$> m) :=
  h.bind hclosed fun a => Agrees.pure (f a)

theorem Agrees.ite {c : Prop} [Decidable c] {m₁ m₂ : Program σ ε α} (h₁ : Agrees fine P m₁)
    (h₂ : Agrees fine P m₂) : Agrees fine P (if c then m₁ else m₂) :=
  Sim.ite (fun _ => h₁) fun _ => h₂

/-- A loop that starts with equal values and goes on with equal values. -/
theorem Sim.loop_same {body : β → Program σ ε (β ⊕ α)} {Q : α → α → List ε → σ → σ → Prop}
    (hclosed : ∀ l l', fine (l ++ l') → fine l)
    (h : ∀ b, Sim fine P (body b) (body b) (LoopPost (fun c k l s t => c = k ∧ P l s t) Q))
    (n : Nat) (b : β) : Sim fine P (Program.loop body n b) (Program.loop body n b) Q := by
  have hbody : ∀ c k, Sim fine (fun l s t => c = k ∧ P l s t) (body c) (body k)
      (LoopPost (fun c k l s t => c = k ∧ P l s t) Q) := by
    rintro c k l s t ⟨rfl, hp⟩ hfine
    exact h c l s t hp hfine
  exact (Sim.loop hclosed hbody n b b).pre fun _ _ _ hp => ⟨rfl, hp⟩

theorem Agrees.loop {body : β → Program σ ε (β ⊕ α)}
    (hclosed : ∀ l l', fine (l ++ l') → fine l) (h : ∀ b, Agrees fine P (body b)) (n : Nat)
    (b : β) : Agrees fine P (loop body n b) := by
  refine Sim.loop_same hclosed (fun b => (h b).post ?_) n b
  rintro (c | a) _ l s t ⟨rfl, hp⟩
  · exact ⟨rfl, hp⟩
  · exact ⟨rfl, hp⟩

/-! ## One program from states of a kind -/

/-- From every state of the kind `x`, the program comes to an outcome in `Φ`. -/
def Ends (I : σ → τ → Prop) (m : Program σ ε α) (x : τ) (Φ : Outcome σ ε α → Prop) : Prop :=
  ∀ s, I s x → Φ (m s)

/-- From every state of the kind `x`, the program has the result `a` in a state of the kind `y`,
and all that it reports is `fine`. -/
def Yields (I : σ → τ → Prop) (fine : ε → Prop) (m : Program σ ε α) (x : τ) (a : α) (y : τ) :
    Prop :=
  Ends I m x fun o => o.result = some a ∧ I o.state y ∧ ∀ e ∈ o.trace, fine e

/-- What is fine makes no difference when it is reported before. -/
def Closed (fine : ε → Prop) (Φ : Outcome σ ε α → Prop) : Prop :=
  ∀ r s l l', (∀ e ∈ l, fine e) → Φ ⟨r, s, l'⟩ → Φ ⟨r, s, l ++ l'⟩

section Yields

variable {I : σ → τ → Prop} {fine : ε → Prop} {x y z : τ} {m : Program σ ε α} {a : α} {b : β}
  {f : α → Program σ ε β} {Φ : Outcome σ ε β → Prop}

theorem closed_yields : Closed fine fun o : Outcome σ ε α =>
    o.result = some a ∧ I o.state y ∧ ∀ e ∈ o.trace, fine e := by
  rintro r s l l' hl ⟨hr, hs, hl'⟩
  exact ⟨hr, hs, List.forall_mem_append.mpr ⟨hl, hl'⟩⟩

theorem Yields.pure (a : α) (x : τ) : Yields I fine (pure a : Program σ ε α) x a x :=
  fun _ hs => ⟨rfl, hs, by simp⟩

theorem Yields.update {g : σ → σ} (h : ∀ s, I s x → I (g s) y) :
    Yields I fine (update g : Program σ ε Unit) x () y :=
  fun s hs => ⟨rfl, h s hs, by simp⟩

/-- **Sequence.** -/
theorem Yields.ends_bind (h : Yields I fine m x a y) (hΦ : Closed fine Φ)
    (hf : Ends I (f a) y Φ) : Ends I (m >>= f) x Φ := by
  intro s hs
  obtain ⟨hr, ht, hl⟩ := h s hs
  rw [bind_of_some hr]
  exact hΦ _ _ _ _ hl (hf _ ht)

theorem Yields.bind (h : Yields I fine m x a y) (hf : Yields I fine (f a) y b z) :
    Yields I fine (m >>= f) x b z :=
  h.ends_bind closed_yields hf

theorem Yields.map {g : α → β} (h : Yields I fine m x a y) : Yields I fine (g <$> m) x (g a) y :=
  h.bind (Yields.pure _ _)

variable {body : γ → Program σ ε (γ ⊕ β)} {c c' : γ} {n : Nat}

/-- The loop goes on. -/
theorem Yields.ends_loop (h : Yields I fine (body c) x (.inl c') y) (hΦ : Closed fine Φ)
    (hrest : Ends I (loop body n c') y Φ) : Ends I (loop body (n + 1) c) x Φ :=
  h.ends_bind hΦ hrest

/-- The loop ends. -/
theorem Yields.loop (h : Yields I fine (body c) x (.inr b) y) :
    Yields I fine (loop body (n + 1) c) x b y :=
  h.bind (Yields.pure _ _)

end Yields

/-! ## Partial correctness -/

/-- From every state that `P` holds of, `Q` holds of a result that the program comes to, and of the
state then. -/
def Ensures (P : σ → Prop) (m : Program σ ε α) (Q : α → σ → Prop) : Prop :=
  ∀ s, P s → ∀ a, (m s).result = some a → Q a (m s).state

/-- `I` is an invariant of the program. -/
abbrev Keeps (I : σ → Prop) (m : Program σ ε α) : Prop := Ensures I m fun _ => I

section Ensures

variable {P I : σ → Prop} {m : Program σ ε α} {Q : α → σ → Prop} {R : β → σ → Prop}

theorem Ensures.pure {a : α} (h : ∀ s, P s → Q a s) : Ensures P (pure a : Program σ ε α) Q := by
  rintro s hs b hb
  obtain rfl := Option.some.inj hb
  exact h s hs

/-- **Sequence.** -/
theorem Ensures.bind {f : α → Program σ ε β} (h : Ensures P m Q)
    (hf : ∀ a, Ensures (Q a) (f a) R) : Ensures P (m >>= f) R := by
  intro s hs b hb
  cases ha : (m s).result with
  | none =>
    rw [bind_of_none ha] at hb
    cases hb
  | some a =>
    rw [bind_of_some ha] at hb ⊢
    exact hf a _ (h s hs a ha) b hb

theorem Ensures.map {f : α → β} (h : Ensures P m fun a => R (f a)) : Ensures P (f <$> m) R :=
  h.bind fun _ => Ensures.pure fun _ hs => hs

theorem Ensures.ite {c : Prop} [Decidable c] {m₁ m₂ : Program σ ε α}
    (h₁ : c → Ensures P m₁ Q) (h₂ : ¬ c → Ensures P m₂ Q) :
    Ensures P (if c then m₁ else m₂) Q := by
  split
  · next hc => exact h₁ hc
  · next hc => exact h₂ hc

/-- **The loop rule**, by induction on the fuel. -/
theorem Ensures.loop {J : γ → σ → Prop} {body : γ → Program σ ε (γ ⊕ α)}
    (h : ∀ c, Ensures (J c) (body c) fun r s => r.elim (J · s) (Q · s)) (n : Nat) :
    ∀ c, Ensures (J c) (loop body n c) Q := by
  induction n with
  | zero =>
    intro c s _ a ha
    cases ha
  | succ n ih =>
    refine fun c => (h c).bind ?_
    rintro (c' | a)
    · exact ih c'
    · exact Ensures.pure fun _ hs => hs

theorem Keeps.pure (a : α) : Keeps I (pure a : Program σ ε α) := Ensures.pure fun _ hs => hs

theorem Keeps.state : Keeps I (state : Program σ ε σ) := fun _ hs _ _ => hs

theorem Keeps.emit (e : ε) : Keeps I (emit e : Program σ ε Unit) := fun _ hs _ _ => hs

theorem Keeps.bind {f : α → Program σ ε β} (h : Keeps I m) (hf : ∀ a, Keeps I (f a)) :
    Keeps I (m >>= f) :=
  Ensures.bind h hf

theorem Keeps.map {f : α → β} (h : Keeps I m) : Keeps I (f <$> m) := Ensures.map h

theorem Keeps.ite {c : Prop} [Decidable c] {m₁ m₂ : Program σ ε α} (h₁ : Keeps I m₁)
    (h₂ : Keeps I m₂) : Keeps I (if c then m₁ else m₂) :=
  Ensures.ite (fun _ => h₁) fun _ => h₂

theorem Keeps.loop {body : γ → Program σ ε (γ ⊕ α)} (h : ∀ c, Keeps I (body c)) (n : Nat)
    (c : γ) : Keeps I (loop body n c) := by
  refine Ensures.loop (J := fun _ => I) (fun c s hs r hr => ?_) n c
  have hkept := h c s hs r hr
  cases r with
  | inl c' => exact hkept
  | inr a => exact hkept

end Ensures

end Program

end Infra
