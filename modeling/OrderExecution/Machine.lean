import Mathlib.Data.List.Basic

/-!
# Partial machines and their runs

A machine is a partial step function `step : σ → ε → Option σ`: the event `e`
can happen in `s` when `step s e` is `some`. `run` follows a list of events,
`Along` says that every step of a run meets a condition on the state before
it, and `Always` that every state a run visits has a property. `runCalls` is a
machine that answers, and never refuses, a call.
-/

namespace Machine

variable {σ ε : Type} (step : σ → ε → Option σ)

def run : σ → List ε → Option σ
  | s, [] => some s
  | s, e :: es => (step s e).bind fun s' => run s' es

/-- Every step of the run from `s` meets `C`, a condition on the state before
the step and its event. -/
def Along (C : σ → ε → Prop) : σ → List ε → Prop
  | _, [] => True
  | s, e :: es => C s e ∧ ∀ s', step s e = some s' → Along C s' es

/-- Every state the run from `s` visits has `P`, the first and last included. -/
def Always (P : σ → Prop) : σ → List ε → Prop
  | s, [] => P s
  | s, e :: es => P s ∧ ∀ s', step s e = some s' → Always P s' es

/-- Some state the run from `s` visits has `P`. -/
def Visits (P : σ → Prop) (s : σ) (es : List ε) : Prop :=
  ∃ es₁ es₂ t, es = es₁ ++ es₂ ∧ run step s es₁ = some t ∧ P t

instance decidableAlong {C : σ → ε → Prop} [∀ s e, Decidable (C s e)] :
    ∀ s es, Decidable (Along step C s es)
  | _, [] => isTrue trivial
  | s, e :: es =>
    have : Decidable (∀ s', step s e = some s' → Along step C s' es) :=
      match step s e with
      | none => isTrue nofun
      | some t => match decidableAlong t es with
        | isTrue h => isTrue fun _ ht => Option.some.inj ht ▸ h
        | isFalse h => isFalse fun hs => h (hs t rfl)
    inferInstanceAs (Decidable (_ ∧ _))

section
variable {step}

theorem run_cons {s s' : σ} {e : ε} {es : List ε} (h : run step s (e :: es) = some s') :
    ∃ t, step s e = some t ∧ run step t es = some s' :=
  Option.bind_eq_some_iff.mp h

theorem run_append (s : σ) (es₁ es₂ : List ε) :
    run step s (es₁ ++ es₂) = (run step s es₁).bind fun t => run step t es₂ := by
  induction es₁ generalizing s with
  | nil => rfl
  | cons e es₁ ih =>
    simp only [List.cons_append, run]
    cases step s e with
    | none => rfl
    | some t => exact ih t

theorem run_append_some {s s' : σ} {es₁ es₂ : List ε} (h : run step s (es₁ ++ es₂) = some s') :
    ∃ t, run step s es₁ = some t ∧ run step t es₂ = some s' := by
  rw [run_append] at h
  exact Option.bind_eq_some_iff.mp h

theorem run_trans {s t s' : σ} {es₁ es₂ : List ε} (h₁ : run step s es₁ = some t)
    (h₂ : run step t es₂ = some s') : run step s (es₁ ++ es₂) = some s' := by
  rw [run_append, h₁]; exact h₂

theorem run_one {s s' : σ} {e : ε} (h : step s e = some s') : run step s [e] = some s' := by
  simp [run, h]

theorem run_snoc {s s' : σ} {es : List ε} {e : ε} (h : run step s (es ++ [e]) = some s') :
    ∃ t, run step s es = some t ∧ step t e = some s' := by
  obtain ⟨t, h₁, h₂⟩ := run_append_some h
  obtain ⟨u, hu, hr⟩ := run_cons h₂
  simp only [run, Option.some.injEq] at hr
  exact ⟨t, h₁, hr ▸ hu⟩

theorem visits_snoc {P : σ → Prop} {s t s' : σ} {es : List ε} {e : ε} (ht : run step s es = some t)
    (hs : step t e = some s') : Visits step P s (es ++ [e]) ↔ Visits step P s es ∨ P s' := by
  constructor
  · rintro ⟨es₁, es₂, u, he, hu, hP⟩
    rcases List.eq_nil_or_concat es₂ with rfl | ⟨es₃, a, rfl⟩
    · rw [List.append_nil] at he
      subst he
      rw [run_trans ht (run_one hs), Option.some.injEq] at hu
      exact .inr (hu ▸ hP)
    · rw [List.concat_eq_append, ← List.append_assoc] at he
      exact .inl ⟨es₁, es₃, u, (List.append_inj' he rfl).1, hu, hP⟩
  · rintro (⟨es₁, es₂, u, he, hu, hP⟩ | hP)
    · exact ⟨es₁, es₂ ++ [e], u, by rw [he, List.append_assoc], hu, hP⟩
    · exact ⟨es ++ [e], [], s', (List.append_nil _).symm, run_trans ht (run_one hs), hP⟩

theorem along_iff {C : σ → ε → Prop} {s : σ} {es : List ε} :
    Along step C s es ↔ ∀ es₁ e es₂ t, es = es₁ ++ e :: es₂ → run step s es₁ = some t → C t e := by
  induction es generalizing s with
  | nil => simp [Along]
  | cons a es ih =>
    constructor
    · rintro ⟨h, hs⟩ es₁ e es₂ t he ht
      cases es₁ with
      | nil =>
        simp only [List.nil_append, List.cons.injEq] at he
        simp only [run, Option.some.injEq] at ht
        rw [← he.1, ← ht]; exact h
      | cons b es₁ =>
        simp only [List.cons_append, List.cons.injEq] at he
        obtain ⟨u, hu, ht⟩ := run_cons ht
        rw [← he.1] at hu
        exact ih.mp (hs u hu) es₁ e es₂ t he.2 ht
    · intro h
      refine ⟨h [] a es s rfl rfl, fun u hu => ih.mpr ?_⟩
      intro es₁ e es₂ t he ht
      exact h (a :: es₁) e es₂ t (by rw [he]; rfl) (by simp [run, hu, ht])

theorem always_iff {P : σ → Prop} {s : σ} {es : List ε} :
    Always step P s es ↔ ∀ es₁ es₂ t, es = es₁ ++ es₂ → run step s es₁ = some t → P t := by
  induction es generalizing s with
  | nil =>
    constructor
    · intro h es₁ es₂ t he ht
      obtain ⟨rfl, -⟩ := List.append_eq_nil_iff.mp he.symm
      simp only [run, Option.some.injEq] at ht
      exact ht ▸ h
    · intro h; exact h [] [] s rfl rfl
  | cons a es ih =>
    constructor
    · rintro ⟨h, hs⟩ es₁ es₂ t he ht
      cases es₁ with
      | nil => simp only [run, Option.some.injEq] at ht; exact ht ▸ h
      | cons b es₁ =>
        simp only [List.cons_append, List.cons.injEq] at he
        obtain ⟨u, hu, ht⟩ := run_cons ht
        rw [← he.1] at hu
        exact ih.mp (hs u hu) es₁ es₂ t he.2 ht
    · intro h
      refine ⟨h [] (a :: es) s rfl rfl, fun u hu => ih.mpr ?_⟩
      intro es₁ es₂ t he ht
      exact h (a :: es₁) es₂ t (by rw [he]; rfl) (by simp [run, hu, ht])

theorem Along.mono {C D : σ → ε → Prop} (hCD : ∀ s e, C s e → D s e) {s : σ} {es : List ε}
    (h : Along step C s es) : Along step D s es :=
  along_iff.mpr fun es₁ e es₂ t he ht => hCD t e (along_iff.mp h es₁ e es₂ t he ht)

/-- A run that does not meet `C` throughout has a first step that does not. -/
theorem exists_first_not_along {C : σ → ε → Prop} {s s' : σ} {es : List ε} (hr : run step s es = some s')
    (h : ¬ Along step C s es) : ∃ es₁ e es₂ t u, es = es₁ ++ e :: es₂ ∧ Along step C s es₁ ∧
      run step s es₁ = some t ∧ step t e = some u ∧ ¬ C t e := by
  induction es generalizing s with
  | nil => exact absurd trivial h
  | cons a es ih =>
    obtain ⟨v, hv, hr⟩ := run_cons hr
    by_cases hC : C s a
    · have hrest : ¬ Along step C v es := fun hA => h ⟨hC, fun w hw => by
        rw [hv] at hw
        exact Option.some.inj hw ▸ hA⟩
      obtain ⟨es₁, e, es₂, t, u, rfl, hA, ht, hu, hnot⟩ := ih hr hrest
      refine ⟨a :: es₁, e, es₂, t, u, rfl, ⟨hC, fun w hw => ?_⟩, by simp [run, hv, ht], hu, hnot⟩
      rw [hv] at hw
      exact Option.some.inj hw ▸ hA
    · exact ⟨[], a, es, s, v, rfl, trivial, rfl, hv, hC⟩

theorem along_of_mem {C : σ → ε → Prop} {es : List ε} (h : ∀ e ∈ es, ∀ s, C s e) (s : σ) : Along step C s es :=
  along_iff.mpr fun _ e _ t he _ => h e (by simp [he]) t

theorem Along.and {C D : σ → ε → Prop} {s : σ} {es : List ε} (hC : Along step C s es)
    (hD : Along step D s es) : Along step (fun s e => C s e ∧ D s e) s es :=
  along_iff.mpr fun es₁ e es₂ t he ht => ⟨along_iff.mp hC es₁ e es₂ t he ht, along_iff.mp hD es₁ e es₂ t he ht⟩

theorem along_append {C : σ → ε → Prop} {s : σ} {es₁ es₂ : List ε} :
    Along step C s (es₁ ++ es₂) ↔ Along step C s es₁ ∧ ∀ t, run step s es₁ = some t → Along step C t es₂ := by
  induction es₁ generalizing s with
  | nil => exact ⟨fun h => ⟨trivial, fun t ht => Option.some.inj ht ▸ h⟩, fun h => h.2 s rfl⟩
  | cons e es₁ ih =>
    constructor
    · intro h
      refine ⟨⟨h.1, fun t ht => (ih.mp (h.2 t ht)).1⟩, fun t ht => ?_⟩
      obtain ⟨u, hu, hr⟩ := run_cons ht
      exact (ih.mp (h.2 u hu)).2 t hr
    · intro h
      refine ⟨h.1.1, fun u hu => ih.mpr ⟨h.1.2 u hu, fun t ht => h.2 t ?_⟩⟩
      simp [run, hu, ht]

/-- The run lemma: what each step that meets `C` preserves, a run that meets
`C` preserves. -/
theorem inv_along {C : σ → ε → Prop} {I : σ → Prop}
    (hI : ∀ s e s', I s → C s e → step s e = some s' → I s') {s s' : σ} {es : List ε}
    (hC : Along step C s es) (hs : I s) (hr : run step s es = some s') : I s' := by
  induction es generalizing s with
  | nil => simp only [run, Option.some.injEq] at hr; exact hr ▸ hs
  | cons e es ih =>
    obtain ⟨t, ht, hr⟩ := run_cons hr
    exact ih (hC.2 t ht) (hI s e t hs hC.1 ht) hr

theorem inv_always {C : σ → ε → Prop} {I : σ → Prop}
    (hI : ∀ s e s', I s → C s e → step s e = some s' → I s') {s : σ} {es : List ε}
    (hC : Along step C s es) (hs : I s) : Always step I s es := by
  induction es generalizing s with
  | nil => exact hs
  | cons e es ih => exact ⟨hs, fun t ht => ih (hC.2 t ht) (hI s e t hs hC.1 ht)⟩

/-- Two conditions that agree wherever the invariant of a run holds. -/
theorem along_congr {C P Q : σ → ε → Prop} {I : σ → Prop}
    (hI : ∀ s e s', I s → C s e → step s e = some s' → I s') (hPQ : ∀ s e, I s → C s e → (P s e ↔ Q s e))
    {s : σ} {es : List ε} (hC : Along step C s es) (hs : I s) : Along step P s es ↔ Along step Q s es := by
  induction es generalizing s with
  | nil => exact Iff.rfl
  | cons e es ih =>
    refine and_congr (hPQ s e hs hC.1) (forall_congr' fun t => forall_congr' fun ht => ?_)
    exact ih (hC.2 t ht) (hI s e t hs hC.1 ht)

/-- An invariant of every step is an invariant of every run. -/
theorem inv_run {I : σ → Prop} (hI : ∀ s e s', I s → step s e = some s' → I s') {s s' : σ}
    {es : List ε} (hs : I s) (hr : run step s es = some s') : I s' := by
  induction es generalizing s with
  | nil => simp only [run, Option.some.injEq] at hr; exact hr ▸ hs
  | cons e es ih =>
    obtain ⟨t, ht, hr⟩ := run_cons hr
    exact ih (hI s e t hs ht) hr

/-- When a run of another machine matches every step, one matches every run. -/
theorem run_simulated {τ δ : Type} {step₂ : τ → δ → Option τ} {f : σ → τ} {C : σ → ε → Prop} {I : σ → Prop}
    (hI : ∀ s e s', I s → C s e → step s e = some s' → I s' ∧ ∃ ds, run step₂ (f s) ds = some (f s'))
    {s s' : σ} {es : List ε} (hC : Along step C s es) (hs : I s) (hr : run step s es = some s') :
    ∃ ds, run step₂ (f s) ds = some (f s') := by
  induction es generalizing s with
  | nil =>
    simp only [run, Option.some.injEq] at hr
    exact ⟨[], congrArg (some ∘ f) hr⟩
  | cons e es ih =>
    obtain ⟨t, ht, hr⟩ := run_cons hr
    obtain ⟨hIt, ds₁, h₁⟩ := hI s e t hs hC.1 ht
    obtain ⟨ds₂, h₂⟩ := ih (hC.2 t ht) hIt hr
    exact ⟨ds₁ ++ ds₂, run_trans h₁ h₂⟩

/-- A relation that every step keeps, with steps of the other machine that show the
same, relates every run to one that shows the same. -/
theorem run_refines {τ δ ω : Type} {step₂ : τ → δ → Option τ} {R : σ → τ → Prop} {C : σ → ε → Prop}
    {obs : ε → Option ω} {obs₂ : δ → Option ω}
    (hR : ∀ s e s' t, R s t → C s e → step s e = some s' →
      ∃ ds t', run step₂ t ds = some t' ∧ R s' t' ∧ ds.filterMap obs₂ = (obs e).toList)
    {s s' : σ} {t : τ} {es : List ε} (hC : Along step C s es) (hs : R s t) (hr : run step s es = some s') :
    ∃ ds t', run step₂ t ds = some t' ∧ R s' t' ∧ ds.filterMap obs₂ = es.filterMap obs := by
  induction es generalizing s t with
  | nil =>
    simp only [run, Option.some.injEq] at hr
    exact ⟨[], t, rfl, hr ▸ hs, rfl⟩
  | cons e es ih =>
    obtain ⟨u, hu, hr⟩ := run_cons hr
    obtain ⟨ds₁, t₁, h₁, hR₁, hobs₁⟩ := hR s e u t hs hC.1 hu
    obtain ⟨ds₂, t₂, h₂, hR₂, hobs₂⟩ := ih (hC.2 u hu) hR₁ hr
    refine ⟨ds₁ ++ ds₂, t₂, run_trans h₁ h₂, hR₂, ?_⟩
    rw [List.filterMap_append, hobs₁, hobs₂, List.filterMap_cons]
    cases obs e <;> rfl

theorem Always.mono {P Q : σ → Prop} (hPQ : ∀ s, P s → Q s) {s : σ} {es : List ε}
    (h : Always step P s es) : Always step Q s es :=
  always_iff.mpr fun es₁ es₂ t he ht => hPQ t (always_iff.mp h es₁ es₂ t he ht)

end

/-! ## Calls and answers -/

section
variable {τ ι ο : Type}

/-- The state after a list of calls, and the answers to them. -/
def runCalls (call : σ → ι → σ × ο) : σ → List ι → σ × List ο
  | s, [] => (s, [])
  | s, i :: is => ((runCalls call (call s i).1 is).1, (call s i).2 :: (runCalls call (call s i).1 is).2)

/-- A relation between two states and the calls still to come. When every call
keeps it, and is answered alike on both sides, so are whole runs. -/
theorem runCalls_simulated {f : σ → ι → σ × ο} {g : τ → ι → τ × ο} {R : σ → τ → List ι → Prop}
    (hcall : ∀ s t i is, R s t (i :: is) → R (f s i).1 (g t i).1 is ∧ (f s i).2 = (g t i).2) {s : σ} {t : τ}
    {is : List ι} (h : R s t is) :
    R (runCalls f s is).1 (runCalls g t is).1 [] ∧ (runCalls f s is).2 = (runCalls g t is).2 := by
  induction is generalizing s t with
  | nil => exact ⟨h, rfl⟩
  | cons i is ih =>
    obtain ⟨hr, ho⟩ := hcall s t i is h
    obtain ⟨hr', ho'⟩ := ih hr
    unfold runCalls
    exact ⟨hr', by rw [ho, ho']⟩

/-- A relation that every call keeps, with equal answers, relates whole runs. -/
theorem runCalls_related {f : σ → ι → σ × ο} {g : τ → ι → τ × ο} {R : σ → τ → Prop}
    (hcall : ∀ s t i, R s t → R (f s i).1 (g t i).1 ∧ (f s i).2 = (g t i).2) {s : σ} {t : τ} (h : R s t)
    (is : List ι) : R (runCalls f s is).1 (runCalls g t is).1 ∧ (runCalls f s is).2 = (runCalls g t is).2 :=
  runCalls_simulated (R := fun s t _ => R s t) (fun s t i _ h => hcall s t i h) h

end

end Machine
