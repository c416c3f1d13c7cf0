import Mathlib.Logic.Basic

/-!
# Simulation and postconditions for stateful computations with errors

An implementation is an `EStateM ε σ`, a specification an `EStateM (Stop ε) τ`.  A
specification may end with one of the implementation's errors, or *stuck*: then it promises
nothing.  `Sim` relates one run of each, `Post` is the weakest precondition of a
specification that never gets stuck.  Both compose along `bind`, so the proof about a
program follows the program.
-/

/-- How a specification ends without a value. -/
inductive Stop (ε : Type)
  | raise (e : ε)
  | stuck
  deriving DecidableEq, Repr

namespace Stop

variable {ε σ τ α β γ δ : Type}

/-! ## Running a sequence -/

theorem bind_of_ok {m : EStateM ε σ α} {k : α → EStateM ε σ γ} {s s' : σ} {a : α}
    (h : m s = .ok a s') : (m >>= k) s = k a s' := by
  simp only [bind, EStateM.bind, h]

theorem bind_of_error {m : EStateM ε σ α} {k : α → EStateM ε σ γ} {s s' : σ} {e : ε}
    (h : m s = .error e s') : (m >>= k) s = .error e s' := by
  simp only [bind, EStateM.bind, h]

/-- A sequence that succeeds, taken apart. -/
theorem of_bind_eq_ok {m : EStateM ε σ α} {k : α → EStateM ε σ γ} {s s' : σ} {c : γ}
    (h : (m >>= k) s = .ok c s') : ∃ a s₁, m s = .ok a s₁ ∧ k a s₁ = .ok c s' := by
  rcases hm : m s with ⟨a, s₁⟩ | ⟨e, s₁⟩
  · rw [bind_of_ok hm] at h
    exact ⟨a, s₁, rfl, h⟩
  · rw [bind_of_error hm] at h
    cases h

/-! ## Simulation -/

/-- The run of `m` from `s` does what the run of `m'` from `t` says: same ending, results
related by `Q`, states related by `R`. -/
def Sim (R : σ → τ → Prop) (Q : α → β → Prop) (m : EStateM ε σ α) (m' : EStateM (Stop ε) τ β)
    (s : σ) (t : τ) : Prop :=
  match m' t with
  | .ok b t' => ∃ a s', m s = .ok a s' ∧ Q a b ∧ R s' t'
  | .error (.raise e) t' => ∃ s', m s = .error e s' ∧ R s' t'
  | .error .stuck _ => True

section Sim

variable {R : σ → τ → Prop} {Q : α → β → Prop} {Q' : γ → δ → Prop}
variable {m : EStateM ε σ α} {m' : EStateM (Stop ε) τ β} {s : σ} {t : τ}

theorem Sim.ok (h : Sim R Q m m' s t) {b : β} {t' : τ} (ht : m' t = .ok b t') :
    ∃ a s', m s = .ok a s' ∧ Q a b ∧ R s' t' := by
  unfold Sim at h
  rw [ht] at h
  exact h

theorem Sim.raise (h : Sim R Q m m' s t) {e : ε} {t' : τ} (ht : m' t = .error (.raise e) t') :
    ∃ s', m s = .error e s' ∧ R s' t' := by
  unfold Sim at h
  rw [ht] at h
  exact h

theorem sim_of_ok {a : α} {b : β} {u : σ} {t' : τ} (hs : m s = .ok a u) (ht : m' t = .ok b t')
    (hQ : Q a b) (hR : R u t') : Sim R Q m m' s t := by
  unfold Sim
  rw [ht]
  exact ⟨a, u, hs, hQ, hR⟩

theorem sim_of_raise {e : ε} {u : σ} {t' : τ} (hs : m s = .error e u)
    (ht : m' t = .error (.raise e) t') (hR : R u t') : Sim R Q m m' s t := by
  unfold Sim
  rw [ht]
  exact ⟨u, hs, hR⟩

theorem sim_of_stuck {t' : τ} (ht : m' t = .error .stuck t') : Sim R Q m m' s t := by
  unfold Sim
  rw [ht]
  trivial

theorem sim_pure {a : α} {b : β} (hQ : Q a b) (hR : R s t) :
    Sim R Q (pure a : EStateM ε σ α) (pure b) s t :=
  sim_of_ok rfl rfl hQ hR

theorem sim_throw {e : ε} (hR : R s t) :
    Sim R Q (throw e : EStateM ε σ α) (throw (.raise e)) s t :=
  sim_of_raise rfl rfl hR

theorem sim_stuck : Sim R Q m (throw .stuck) s t := sim_of_stuck rfl

/-- Sequencing: the continuations are related on related results and states. -/
theorem Sim.bind {k : α → EStateM ε σ γ} {k' : β → EStateM (Stop ε) τ δ}
    (h : Sim R Q m m' s t)
    (hk : ∀ a b s' t', Q a b → R s' t' → Sim R Q' (k a) (k' b) s' t') :
    Sim R Q' (m >>= k) (m' >>= k') s t := by
  rcases ht : m' t with ⟨b, t'⟩ | ⟨e | _, t'⟩
  · obtain ⟨a, s', hs, hQ, hR⟩ := h.ok ht
    have hk := hk a b s' t' hQ hR
    unfold Sim at hk ⊢
    rw [bind_of_ok ht, bind_of_ok hs]
    exact hk
  · obtain ⟨s', hs, hR⟩ := h.raise ht
    exact sim_of_raise (bind_of_error hs) (bind_of_error ht) hR
  · exact sim_of_stuck (bind_of_error ht)

/-- A step of the implementation alone. -/
theorem sim_left {k : α → EStateM ε σ γ} {n : EStateM (Stop ε) τ δ} {a : α} {u : σ}
    (hs : m s = .ok a u) (h : Sim R Q' (k a) n u t) : Sim R Q' (m >>= k) n s t := by
  unfold Sim at h ⊢
  rw [bind_of_ok hs]
  exact h

/-- A step of the specification alone. -/
theorem sim_right {n : EStateM ε σ γ} {k' : β → EStateM (Stop ε) τ δ} {b : β} {t' : τ}
    (ht : m' t = .ok b t') (h : Sim R Q' n (k' b) s t') : Sim R Q' n (m' >>= k') s t := by
  unfold Sim at h ⊢
  rw [bind_of_ok ht]
  exact h

theorem sim_get {k : σ → EStateM ε σ γ} {k' : τ → EStateM (Stop ε) τ δ}
    (h : Sim R Q' (k s) (k' t) s t) : Sim R Q' (get >>= k) (get >>= k') s t := h

theorem sim_get_left {k : σ → EStateM ε σ γ} {n : EStateM (Stop ε) τ δ}
    (h : Sim R Q' (k s) n s t) : Sim R Q' (get >>= k) n s t := h

theorem sim_get_right {n : EStateM ε σ γ} {k' : τ → EStateM (Stop ε) τ δ}
    (h : Sim R Q' n (k' t) s t) : Sim R Q' n (get >>= k') s t := h

theorem sim_set_left {k : PUnit → EStateM ε σ γ} {n : EStateM (Stop ε) τ δ} {s' : σ}
    (h : Sim R Q' (k ⟨⟩) n s' t) : Sim R Q' (set s' >>= k) n s t := h

theorem sim_set_right {n : EStateM ε σ γ} {k' : PUnit → EStateM (Stop ε) τ δ} {t' : τ}
    (h : Sim R Q' n (k' ⟨⟩) s t') : Sim R Q' n (set t' >>= k') s t := h

theorem Sim.mono {Q₂ : α → β → Prop} (h : Sim R Q m m' s t) (hQ : ∀ a b, Q a b → Q₂ a b) :
    Sim R Q₂ m m' s t := by
  unfold Sim at h ⊢
  rcases ht : m' t with ⟨b, t'⟩ | ⟨e | _, t'⟩ <;> rw [ht] at h
  · obtain ⟨a, s', hs, hq, hR⟩ := h
    exact ⟨a, s', hs, hQ a b hq, hR⟩
  · exact h
  · trivial

/-- The same loop body over the same list. -/
theorem sim_forM {ι : Type} {f : ι → EStateM ε σ PUnit} {f' : ι → EStateM (Stop ε) τ PUnit}
    (l : List ι) (hf : ∀ i ∈ l, ∀ s t, R s t → Sim R (fun _ _ => True) (f i) (f' i) s t)
    {s : σ} {t : τ} (hR : R s t) : Sim R (fun _ _ => True) (l.forM f) (l.forM f') s t := by
  induction l generalizing s t with
  | nil => exact sim_pure trivial hR
  | cons i l ih =>
      refine (hf i List.mem_cons_self s t hR).bind fun _ _ s' t' _ hR' => ?_
      exact ih (fun j hj => hf j (List.mem_cons_of_mem _ hj)) hR'

end Sim

/-! ## Readers

A computation that may change its state, but whose result is the same from every state
with the property `I`. -/

/-- From every state with `I` the computation has the result `e`, up to `Q`, and keeps `I`. -/
def Reads (I : σ → Prop) (Q : α → β → Prop) (m : EStateM ε σ α) (e : Except (Stop ε) β) : Prop :=
  ∀ s, I s → match e with
    | .ok b => ∃ a s', m s = .ok a s' ∧ Q a b ∧ I s'
    | .error (.raise f) => ∃ s', m s = .error f s' ∧ I s'
    | .error .stuck => True

section Reads

variable {I : σ → Prop} {Q : α → β → Prop} {Q' : γ → δ → Prop}
variable {m : EStateM ε σ α} {e : Except (Stop ε) β}

theorem reads_pure {a : α} {b : β} (hQ : Q a b) : Reads I Q (pure a : EStateM ε σ α) (.ok b) :=
  fun s hs => ⟨a, s, rfl, hQ, hs⟩

theorem reads_throw {f : ε} : Reads I Q (throw f : EStateM ε σ α) (.error (.raise f)) :=
  fun s hs => ⟨s, rfl, hs⟩

theorem reads_stuck : Reads I Q m (.error .stuck) := fun _ _ => trivial

theorem Reads.bind {k : α → EStateM ε σ γ} {k' : β → Except (Stop ε) δ} (h : Reads I Q m e)
    (hk : ∀ a b, Q a b → e = .ok b → Reads I Q' (k a) (k' b)) :
    Reads I Q' (m >>= k) (e >>= k') := by
  intro s hs
  have hm := h s hs
  rcases e with (f | _) | b
  · obtain ⟨s', hm, hs'⟩ := hm
    exact ⟨s', bind_of_error hm, hs'⟩
  · trivial
  · obtain ⟨a, s', hm, hQ, hs'⟩ := hm
    have h := hk a b hQ rfl s' hs'
    rw [bind_of_ok hm]
    exact h

/-- Sequencing behind a known value. -/
theorem Reads.seq {k : α → EStateM ε σ γ} {a : α} {e' : Except (Stop ε) δ}
    (h : Reads I Eq m (.ok a)) (hk : Reads I Q' (k a) e') : Reads I Q' (m >>= k) e' := by
  intro s hs
  obtain ⟨_, s', hm, rfl, hs'⟩ := h s hs
  have h := hk s' hs'
  rw [bind_of_ok hm]
  exact h

theorem Reads.mono {Q₂ : α → β → Prop} (h : Reads I Q m e) (hQ : ∀ a b, Q a b → Q₂ a b) :
    Reads I Q₂ m e := by
  intro s hs
  have hm := h s hs
  rcases e with (f | _) | b
  · exact hm
  · trivial
  · obtain ⟨a, s', hm, hq, hs'⟩ := hm
    exact ⟨a, s', hm, hQ a b hq, hs'⟩

theorem Reads.ok {b : β} (h : Reads I Q m (.ok b)) {s : σ} (hs : I s) :
    ∃ a s', m s = .ok a s' ∧ Q a b ∧ I s' := h s hs

/-- What comes after a failure does not matter. -/
theorem Reads.fails {f : ε} {k : α → EStateM ε σ γ} (h : Reads I Q m (.error (.raise f))) :
    Reads I Q' (m >>= k) (.error (.raise f)) := by
  intro s hs
  obtain ⟨s', hm, hs'⟩ := h s hs
  exact ⟨s', bind_of_error hm, hs'⟩

theorem Reads.raise {f : ε} (h : Reads I Q m (.error (.raise f))) {s : σ} (hs : I s) :
    ∃ s', m s = .error f s' ∧ I s' := h s hs

end Reads

/-! ## Postconditions -/

/-- From `t` the specification does not get stuck; a value and its state satisfy `Q`, an
error and its state `E`. -/
def Post (m : EStateM (Stop ε) τ β) (Q : β → τ → Prop) (E : ε → τ → Prop) (t : τ) : Prop :=
  match m t with
  | .ok b t' => Q b t'
  | .error (.raise e) t' => E e t'
  | .error .stuck _ => False

section Post

variable {m : EStateM (Stop ε) τ β} {Q Q₂ : β → τ → Prop} {E E₂ : ε → τ → Prop} {t : τ}

theorem Post.ok (h : Post m Q E t) {b : β} {t' : τ} (ht : m t = .ok b t') : Q b t' := by
  unfold Post at h
  rw [ht] at h
  exact h

theorem Post.raise (h : Post m Q E t) {e : ε} {t' : τ} (ht : m t = .error (.raise e) t') :
    E e t' := by
  unfold Post at h
  rw [ht] at h
  exact h

theorem Post.not_stuck (h : Post m Q E t) {t' : τ} : m t ≠ .error .stuck t' := by
  intro ht
  unfold Post at h
  rw [ht] at h
  exact h

theorem post_of_ok {b : β} {t' : τ} (ht : m t = .ok b t') (hQ : Q b t') : Post m Q E t := by
  unfold Post
  rw [ht]
  exact hQ

theorem post_pure {b : β} (hQ : Q b t) : Post (pure b : EStateM (Stop ε) τ β) Q E t := hQ

theorem Post.bind {k : β → EStateM (Stop ε) τ δ} {Q' : δ → τ → Prop}
    (h : Post m (fun b t' => Post (k b) Q' E t') E t) : Post (m >>= k) Q' E t := by
  unfold Post at h ⊢
  rcases hm : m t with ⟨b, t'⟩ | ⟨e | _, t'⟩ <;> rw [hm] at h
  · rw [bind_of_ok hm]
    exact h
  · rw [bind_of_error hm]
    exact h
  · exact h.elim

/-- Sequencing two proofs. -/
theorem Post.seq {k : β → EStateM (Stop ε) τ δ} {Q' : δ → τ → Prop} (h : Post m Q E t)
    (hk : ∀ b t', Q b t' → Post (k b) Q' E t') : Post (m >>= k) Q' E t := by
  refine Post.bind ?_
  unfold Post at h ⊢
  rcases hm : m t with ⟨b, t'⟩ | ⟨e | _, t'⟩ <;> rw [hm] at h
  · exact hk b t' h
  · exact h
  · exact h

/-- Sequencing is associative. -/
theorem Post.assoc {α β γ : Type} {m : EStateM (Stop ε) τ α} {k : α → EStateM (Stop ε) τ β}
    {l : β → EStateM (Stop ε) τ γ} {Q : γ → τ → Prop}
    (h : Post (m >>= fun a => k a >>= l) Q E t) : Post (m >>= k >>= l) Q E t := by
  rw [bind_assoc]
  exact h

theorem Post.mono (h : Post m Q E t) (hQ : ∀ b t', Q b t' → Q₂ b t')
    (hE : ∀ e t', E e t' → E₂ e t') : Post m Q₂ E₂ t := by
  unfold Post at h ⊢
  rcases hm : m t with ⟨b, t'⟩ | ⟨e | _, t'⟩ <;> rw [hm] at h
  · exact hQ b t' h
  · exact hE e t' h
  · exact h

/-- Both postconditions of two proofs about one run. -/
theorem Post.and (h : Post m Q E t) (h₂ : Post m Q₂ E₂ t) :
    Post m (fun b t' => Q b t' ∧ Q₂ b t') (fun e t' => E e t' ∧ E₂ e t') t := by
  unfold Post at h h₂ ⊢
  rcases hm : m t with ⟨b, t'⟩ | ⟨e | _, t'⟩ <;> rw [hm] at h h₂
  · exact ⟨h, h₂⟩
  · exact ⟨h, h₂⟩
  · exact h

/-- The postcondition together with the run it is about. -/
theorem Post.run (h : Post m Q E t) : Post m (fun b t' => Q b t' ∧ m t = .ok b t') E t := by
  unfold Post at h ⊢
  rcases hm : m t with ⟨b, t'⟩ | ⟨e | _, t'⟩ <;> rw [hm] at h
  · exact ⟨h, rfl⟩
  · exact h
  · exact h

end Post

/-- A run of the code that succeeds ends where the abstract run ends, with its postcondition. -/
theorem Sim.follow {R : σ → τ → Prop} {m : EStateM ε σ α} {m' : EStateM (Stop ε) τ α}
    {Q : α → τ → Prop} {E : ε → τ → Prop} {s s' : σ} {t : τ} {a : α} (hsim : Sim R Eq m m' s t)
    (hpost : Post m' Q E t) (hrun : m s = .ok a s') : ∃ t', m' t = .ok a t' ∧ R s' t' ∧ Q a t' := by
  rcases ht : m' t with ⟨b, t'⟩ | ⟨e | _, t'⟩
  · obtain ⟨a', s₁, hs₁, rfl, hR⟩ := hsim.ok ht
    rw [hrun] at hs₁
    cases hs₁
    exact ⟨t', rfl, hR, hpost.ok ht⟩
  · obtain ⟨s₁, hs₁, -⟩ := hsim.raise ht
    rw [hrun] at hs₁
    cases hs₁
  · exact absurd ht hpost.not_stuck

/-! ## Runs of calls -/

/-- Before each call of the run the condition holds, as long as the calls before it succeed. -/
def Along {ι : Type} (f : ι → EStateM (Stop ε) τ PUnit) (P : ι → τ → Prop) : List ι → τ → Prop
  | [], _ => True
  | i :: l, t => P i t ∧ ∀ t', f i t = .ok ⟨⟩ t' → Along f P l t'

/-- In every run whose calls all meet the condition, the abstract run keeps up and the invariant
holds at the end. -/
theorem run_along {ι : Type} {R : σ → τ → Prop} {f : ι → EStateM ε σ PUnit}
    {f' : ι → EStateM (Stop ε) τ PUnit} {P : ι → τ → Prop} {E : ε → τ → Prop} (I : τ → Prop)
    (hsim : ∀ i s t, R s t → Sim R Eq (f i) (f' i) s t)
    (hstep : ∀ i t, I t → P i t → Post (f' i) (fun _ t' => I t') E t) (l : List ι) :
    ∀ {s s' : σ} {t : τ}, R s t → I t → Along f' P l t → l.forM f s = .ok ⟨⟩ s' →
      ∃ t', l.forM f' t = .ok ⟨⟩ t' ∧ R s' t' ∧ I t' := by
  induction l with
  | nil =>
      intro s s' t hR hI _ hrun
      have hs : s = s' := by
        injection hrun
      exact ⟨t, rfl, hs ▸ hR, hI⟩
  | cons i l ih =>
      intro s s' t hR hI halong hrun
      obtain ⟨⟨⟩, s₁, hi, hl⟩ := of_bind_eq_ok hrun
      obtain ⟨t₁, ht, hR₁, hI₁⟩ := (hsim i s t hR).follow (hstep i t hI halong.1) hi
      obtain ⟨t', ht', hend⟩ := ih hR₁ hI₁ (halong.2 t₁ ht) hl
      refine ⟨t', ?_, hend⟩
      show (f' i >>= fun _ => l.forM f') t = _
      rw [bind_of_ok ht]
      exact ht'

/-! ## Computations that change nothing -/

/-- However it ends, the computation leaves the state as it was. -/
def ReadOnly (m : EStateM ε σ α) : Prop :=
  ∀ s, match m s with
    | .ok _ s' => s' = s
    | .error _ s' => s' = s

theorem readOnly_pure (a : α) : ReadOnly (pure a : EStateM ε σ α) := fun _ => rfl

theorem readOnly_throw (e : ε) : ReadOnly (throw e : EStateM ε σ α) := fun _ => rfl

theorem readOnly_get : ReadOnly (get : EStateM ε σ σ) := fun _ => rfl

theorem ReadOnly.bind {m : EStateM ε σ α} {k : α → EStateM ε σ β} (h : ReadOnly m)
    (hk : ∀ a, ReadOnly (k a)) : ReadOnly (m >>= k) := by
  intro s
  have hm := h s
  rcases hrun : m s with ⟨a, s'⟩ | ⟨e, s'⟩ <;> rw [hrun] at hm
  · have hm' : s' = s := hm
    rw [bind_of_ok hrun, hm']
    exact hk a s
  · rw [bind_of_error hrun]
    exact hm

/-! ## Frames -/

section Frame

variable {R : σ → σ → Prop}

/-- However the computation ends, the state it leaves is related to the one it starts from. -/
def Frame (R : σ → σ → Prop) (m : EStateM ε σ α) : Prop :=
  ∀ s, match m s with
    | .ok _ s' => R s s'
    | .error _ s' => R s s'

theorem frame_pure (hr : ∀ s, R s s) (a : α) : Frame R (pure a : EStateM ε σ α) := hr

theorem frame_throw (hr : ∀ s, R s s) (e : ε) : Frame R (throw e : EStateM ε σ α) := hr

theorem Frame.bind (ht : ∀ s₁ s₂ s₃, R s₁ s₂ → R s₂ s₃ → R s₁ s₃) {m : EStateM ε σ α}
    {k : α → EStateM ε σ β} (h : Frame R m) (hk : ∀ a, Frame R (k a)) : Frame R (m >>= k) := by
  intro s
  have hm := h s
  rcases hrun : m s with ⟨a, s₁⟩ | ⟨e, s₁⟩ <;> rw [hrun] at hm
  · rw [bind_of_ok hrun]
    have hnext := hk a s₁
    rcases hrun' : k a s₁ with ⟨b, s₂⟩ | ⟨e, s₂⟩ <;> rw [hrun'] at hnext
    · exact ht s s₁ s₂ hm hnext
    · exact ht s s₁ s₂ hm hnext
  · rw [bind_of_error hrun]
    exact hm

theorem frame_forM {ι : Type} (hr : ∀ s, R s s) (ht : ∀ s₁ s₂ s₃, R s₁ s₂ → R s₂ s₃ → R s₁ s₃)
    {f : ι → EStateM ε σ PUnit} (l : List ι) (h : ∀ i ∈ l, Frame R (f i)) :
    Frame R (l.forM f) := by
  induction l with
  | nil => exact frame_pure hr _
  | cons i l ih =>
      exact .bind ht (h i List.mem_cons_self) fun _ => ih fun j hj => h j (List.mem_cons_of_mem i hj)

end Frame

end Stop

/-! ## Evaluated samples -/

/-- The value of a closed computation, with a test that it passes. -/
structure Evaluated {α : Type} (o : Option α) (test : α → Bool) where
  val : α
  eq : o = some val
  passes : test val = true

/-- The sample of a computation, when the test evaluates to true. -/
def Evaluated.of {α : Type} {o : Option α} {test : α → Bool} (h : o.any test = true) :
    Evaluated o test :=
  match o, h with
  | some a, h => ⟨a, rfl, h⟩
