import Mathlib.Tactic.Basic

/-! What was set by an event of a trace and has not been cleared by a later one. -/
namespace RemotePkgInstaller
namespace Latches

variable {E : Type} {sets clears : E → Prop} {trace trace' : List E}

/-- Some event sets it, and none behind that one clears it. -/
def Latched (sets clears : E → Prop) (trace : List E) : Prop :=
  ∃ before e after, trace = before++e::after ∧ sets e ∧ ∀ x ∈ after, ¬ clears x

@[simp] theorem not_latched_nil : ¬ Latched sets clears [] := by
  rintro ⟨before,e,after,h,_⟩
  exact absurd h (by simp)

/-- It is set in the second part, or in the first and kept in the second. -/
theorem latched_append :
    Latched sets clears (trace++trace') ↔
      Latched sets clears trace' ∨ Latched sets clears trace ∧ ∀ x ∈ trace', ¬ clears x := by
  constructor
  · rintro ⟨before,e,after,h,hset,hafter⟩
    rcases List.append_eq_append_iff.mp h with ⟨middle,hbefore,hrest⟩ | ⟨middle,hfirst,hrest⟩
    · exact Or.inl ⟨middle,e,after,hrest,hset,hafter⟩
    · cases middle with
      | nil => exact Or.inl ⟨[],e,after,hrest.symm,hset,hafter⟩
      | cons x middle =>
        obtain ⟨rfl,rfl⟩ := List.cons.inj hrest
        refine Or.inr ⟨⟨before,e,middle,hfirst,hset,fun y hy => ?_⟩,fun y hy => ?_⟩
        · exact hafter y (List.mem_append_left _ hy)
        · exact hafter y (List.mem_append_right _ hy)
  · rintro (⟨before,e,after,rfl,hset,hafter⟩ | ⟨⟨before,e,after,rfl,hset,hafter⟩,hkeep⟩)
    · exact ⟨trace++before,e,after,by simp,hset,hafter⟩
    · refine ⟨before,e,after++trace',by simp,hset,fun x hx => ?_⟩
      rcases List.mem_append.mp hx with hx | hx
      · exact hafter x hx
      · exact hkeep x hx

theorem latched_cons {e : E} :
    Latched sets clears (e::trace) ↔
      Latched sets clears trace ∨ sets e ∧ ∀ x ∈ trace, ¬ clears x := by
  have hone : Latched sets clears [e] ↔ sets e := by
    constructor
    · rintro ⟨before,x,after,h,hset,_⟩
      have hmem : x ∈ [e] := by simp [h]
      exact List.mem_singleton.mp hmem ▸ hset
    · exact fun hset => ⟨[],e,[],rfl,hset,by simp⟩
  rw [← List.singleton_append,latched_append,hone]

/-- Events that do neither leave it as it was. -/
theorem latched_append_of_neither (h : ∀ x ∈ trace', ¬ sets x ∧ ¬ clears x) :
    Latched sets clears (trace++trace') ↔ Latched sets clears trace := by
  rw [latched_append]
  constructor
  · rintro (⟨before,e,after,rfl,hset,_⟩ | ⟨hlatched,_⟩)
    · exact absurd hset (h e (by simp)).1
    · exact hlatched
  · exact fun hlatched => Or.inr ⟨hlatched,fun x hx => (h x hx).2⟩

end Latches
end RemotePkgInstaller
