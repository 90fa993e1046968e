import RemotePkgInstaller.Programs

/-! Programs in an environment whose answers are restricted, and conditions that decide
whether such a program ends with a value. -/
namespace RemotePkgInstaller
namespace Decisions

open Programs Program

variable {C : Type} {R : C → Type} {ε ε' α β S : Type}

section Ensures

variable (allows : (c : C) → R c → Prop) (effect : S → Event R → S)

/-- Whatever is answered of what is allowed, the program ends in a state and with a result
that satisfy `Q`. -/
def EnsuresUnder (Q : S → Except ε α → Prop) : Program C R ε α → S → Prop
  | done a,s => Q s (.ok a)
  | fail e,s => Q s (.error e)
  | call c next,s => ∀ r, allows c r → EnsuresUnder Q (next r) (effect s ⟨c,r⟩)

variable {allows effect} {s : S}

theorem EnsuresUnder.mono {p : Program C R ε α} {Q Q' : S → Except ε α → Prop}
    (h : EnsuresUnder allows effect Q p s) (hQ : ∀ s r, Q s r → Q' s r) :
    EnsuresUnder allows effect Q' p s := by
  induction p generalizing s with
  | done a => exact hQ _ _ h
  | fail e => exact hQ _ _ h
  | call c next ih => exact fun r hr => ih r (h r hr)

theorem ensuresUnder_bind {p : Program C R ε α} {f : α → Program C R ε β}
    {Q : S → Except ε β → Prop} :
    EnsuresUnder allows effect Q (p >>= f) s ↔
      EnsuresUnder allows effect (fun s r => match r with
        | .ok a => EnsuresUnder allows effect Q (f a) s
        | .error e => Q s (.error e)) p s := by
  induction p generalizing s with
  | done a => exact Iff.rfl
  | fail e => exact Iff.rfl
  | call c next ih => exact forall_congr' fun r => forall_congr' fun _ => ih r

theorem ensuresUnder_caught {p : Program C R ε α} {Q : S → Except ε' (Except ε α) → Prop} :
    EnsuresUnder allows effect Q (caught p) s ↔
      EnsuresUnder allows effect (fun s r => Q s (.ok r)) p s := by
  induction p generalizing s with
  | done a => exact Iff.rfl
  | fail e => exact Iff.rfl
  | call c next ih => exact forall_congr' fun r => forall_congr' fun _ => ih r

/-- What is ensured holds at the end of every run whose answers are allowed. -/
theorem EnsuresUnder.ends {p : Program C R ε α} {Q : S → Except ε α → Prop}
    {history : List (Event R)} {r : Except ε α} (h : EnsuresUnder allows effect Q p s)
    (hallowed : ∀ e ∈ history, allows e.1 e.2) (hend : Ends p history r) :
    Q (history.foldl effect s) r := by
  induction p generalizing history s with
  | done a =>
    obtain ⟨rfl,rfl⟩ := ends_done.mp hend
    exact h
  | fail e =>
    obtain ⟨rfl,rfl⟩ := ends_fail.mp hend
    exact h
  | call c next ih =>
    obtain ⟨a,rest,rfl,hrest⟩ := ends_call.mp hend
    have hnext := ih a (h a (hallowed ⟨c,a⟩ List.mem_cons_self))
      (fun e he => hallowed e (List.mem_cons_of_mem _ he)) hrest
    exact hnext

/-- An environment that answers what is allowed. -/
theorem history_allowed {answer : S → (c : C) → S × R c} (hanswer : ∀ s c, allows c (answer s c).2)
    (p : Program C R ε α) (s : S) : ∀ e ∈ history answer p s, allows e.1 e.2 := by
  induction p generalizing s with
  | done a => simp [history]
  | fail e => simp [history]
  | call c next ih =>
    intro e he
    rcases List.mem_cons.mp he with rfl | he
    · exact hanswer s c
    · exact ih _ _ e he

end Ensures

section Decides

variable (allows : (c : C) → R c → Prop) (effect : S → Event R → S)

/-- The program ends with a value if and only if the condition holds, and then so that `Q`
does. -/
def Decides (P : Prop) (Q : S → α → Prop) (p : Program C R ε α) (s : S) : Prop :=
  EnsuresUnder allows effect (fun s r => match r with
    | .ok a => P ∧ Q s a
    | .error _ => ¬ P) p s

variable {allows effect} {P P' : Prop} {Q Q' : S → α → Prop} {s : S}

theorem decides_done {a : α} (hP : P) (hQ : Q s a) :
    Decides allows effect P Q (done a : Program C R ε α) s := ⟨hP,hQ⟩

theorem decides_fail {e : ε} (hP : ¬ P) : Decides allows effect P Q (fail e) s := hP

theorem decides_perform_bind {c : C} {f : R c → Program C R ε α}
    (h : ∀ r, allows c r → Decides allows effect P Q (f r) (effect s ⟨c,r⟩)) :
    Decides allows effect P Q (perform c >>= f) s := h

theorem Decides.mono {p : Program C R ε α} (h : Decides allows effect P Q p s) (hP : P ↔ P')
    (hQ : ∀ s a, P → Q s a → Q' s a) : Decides allows effect P' Q' p s := by
  refine EnsuresUnder.mono h ?_
  rintro s (e | a) hr
  · exact fun hP' => hr (hP.mpr hP')
  · exact ⟨hP.mp hr.1,hQ s a hr.1 hr.2⟩

theorem Decides.bind {p : Program C R ε α} {f : α → Program C R ε β} {Q' : S → β → Prop}
    (h : Decides allows effect P Q p s)
    (hf : ∀ s a, P → Q s a → Decides allows effect P' Q' (f a) s) :
    Decides allows effect (P ∧ P') Q' (p >>= f) s := by
  refine ensuresUnder_bind.mpr (EnsuresUnder.mono h ?_)
  rintro s (e | a) hr
  · exact fun hboth => hr hboth.1
  · refine EnsuresUnder.mono (hf s a hr.1 hr.2) ?_
    rintro s' (e | b) hr'
    · exact fun hboth => hr' hboth.2
    · exact ⟨⟨hr.1,hr'.1⟩,hr'.2⟩

/-- What follows cannot fail. -/
theorem Decides.bind_certain {p : Program C R ε α} {f : α → Program C R ε β} {Q' : S → β → Prop}
    (h : Decides allows effect P Q p s)
    (hf : ∀ s a, P → Q s a → Decides allows effect True Q' (f a) s) :
    Decides allows effect P Q' (p >>= f) s :=
  (h.bind hf).mono (iff_of_eq (and_true P)) fun _ _ _ h => h

/-- A failure that is caught decides the rest. -/
theorem Decides.caught_bind {p : Program C R ε α} {f : Except ε α → Program C R ε' β}
    {Q' : S → β → Prop} (h : Decides allows effect P Q p s)
    (hok : ∀ s a, P → Q s a → Decides allows effect P Q' (f (.ok a)) s)
    (herror : ∀ s e, ¬ P → Decides allows effect P Q' (f (.error e)) s) :
    Decides allows effect P Q' (caught p >>= f) s := by
  refine ensuresUnder_bind.mpr (ensuresUnder_caught.mpr (EnsuresUnder.mono h ?_))
  rintro s (e | a) hr
  · exact herror s e hr
  · exact hok s a hr.1 hr.2

theorem Decides.ends {p : Program C R ε α} {history : List (Event R)} {r : Except ε α}
    (h : Decides allows effect P Q p s) (hallowed : ∀ e ∈ history, allows e.1 e.2)
    (hend : Ends p history r) :
    ((∃ a, r = .ok a) ↔ P) ∧ ∀ a, r = .ok a → Q (history.foldl effect s) a := by
  have hr := EnsuresUnder.ends h hallowed hend
  cases r with
  | error e => exact ⟨⟨fun ⟨_,h⟩ => (nomatch h),fun hP => absurd hP hr⟩,fun _ h => (nomatch h)⟩
  | ok a =>
    refine ⟨⟨fun _ => hr.1,fun _ => ⟨a,rfl⟩⟩,?_⟩
    rintro b hb
    injection hb with hb
    exact hb ▸ hr.2

end Decides

end Decisions
end RemotePkgInstaller
