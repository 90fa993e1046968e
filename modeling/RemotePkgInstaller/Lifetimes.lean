import Mathlib.Data.List.Nodup

/-! Traces of things that are created, used and deleted, one inside the other. -/
namespace RemotePkgInstaller
namespace Lifetimes

variable {κ : Type}

/-- One step of a trace: what it uses, and what it creates or deletes. -/
structure Act (κ : Type) where
  uses : List κ
  creates : Option κ
  deletes : Option κ

/-- Deleting a thing needs it as much as using it. -/
def Act.Needs (a : Act κ) (k : κ) : Prop := k ∈ a.uses ∨ a.deletes = some k

/-- Nothing is created or deleted. -/
structure Act.Quiet (a : Act κ) (live : List κ) : Prop where
  uses : ∀ k ∈ a.uses, k ∈ live
  creates : a.creates = none
  deletes : a.deletes = none

structure Act.Creates (a : Act κ) (live : List κ) (k : κ) : Prop where
  uses : ∀ k ∈ a.uses, k ∈ live
  creates : a.creates = some k
  deletes : a.deletes = none
  fresh : k ∉ live

structure Act.Deletes (a : Act κ) (k : κ) : Prop where
  uses : a.uses = []
  creates : a.creates = none
  deletes : a.deletes = some k

def created (trace : List (Act κ)) : List κ := trace.filterMap Act.creates

def deleted (trace : List (Act κ)) : List κ := trace.filterMap Act.deletes

/-- While the first things are alive, the trace creates the second ones, each inside the last. -/
inductive Nested : List κ → List κ → List (Act κ) → Prop
  | nil {live : List κ} : Nested live [] []
  | quiet {live ks : List κ} {a : Act κ} {trace : List (Act κ)} (ha : a.Quiet live)
      (h : Nested live ks trace) : Nested live ks (a::trace)
  | bracket {live ks : List κ} {a d : Act κ} {k : κ} {body : List (Act κ)}
      (ha : a.Creates live k) (h : Nested (k::live) ks body) (hd : d.Deletes k) :
      Nested live (k::ks) (a::(body++[d]))

variable {live ks : List κ} {trace : List (Act κ)}

theorem Nested.quiet_append {first : List (Act κ)} (hfirst : ∀ a ∈ first, a.Quiet live)
    (h : Nested live ks trace) : Nested live ks (first++trace) := by
  induction first with
  | nil => exact h
  | cons a first ih =>
    exact .quiet (hfirst a List.mem_cons_self) (ih fun b hb => hfirst b (List.mem_cons_of_mem _ hb))

theorem Nested.created_eq (h : Nested live ks trace) : created trace = ks := by
  induction h with
  | nil => rfl
  | quiet ha _ ih =>
    rw [created,List.filterMap_cons_none ha.creates]
    exact ih
  | bracket ha _ hd ih =>
    rw [created] at ih ⊢
    rw [List.filterMap_cons_some ha.creates,List.filterMap_append,ih,
      List.filterMap_cons_none hd.creates,List.filterMap_nil,List.append_nil]

theorem Nested.deleted_eq (h : Nested live ks trace) : deleted trace = ks.reverse := by
  induction h with
  | nil => rfl
  | quiet ha _ ih =>
    rw [deleted,List.filterMap_cons_none ha.deletes]
    exact ih
  | bracket ha _ hd ih =>
    rw [deleted] at ih ⊢
    rw [List.filterMap_cons_none ha.deletes,List.filterMap_append,ih,
      List.filterMap_cons_some hd.deletes,List.filterMap_nil,List.reverse_cons]

/-- Nothing is created again while it is alive. -/
theorem Nested.nodup (h : Nested live ks trace) (hlive : live.Nodup) : (ks++live).Nodup := by
  induction h with
  | nil => exact hlive
  | quiet _ _ ih => exact ih hlive
  | @bracket live ks a d k body ha _ _ ih =>
    have hinner := ih (List.nodup_cons.mpr ⟨ha.fresh,hlive⟩)
    exact (List.perm_middle.nodup_iff).mp hinner

/-- A step of a trace with one more at its end is that one or lies before it. -/
theorem split_last {α : Type} {body before rest : List α} {a d : α}
    (h : body++[d] = before++a::rest) :
    (before = body ∧ a = d) ∨ ∃ rest', body = before++a::rest' := by
  rcases List.eq_nil_or_concat rest with rfl | ⟨rest',x,rfl⟩
  · obtain ⟨rfl,hlast⟩ := List.append_inj' h rfl
    exact Or.inl ⟨rfl,(List.cons.inj hlast).1.symm⟩
  · rw [List.concat_eq_append,← List.cons_append,← List.append_assoc] at h
    exact Or.inr ⟨rest',(List.append_inj' h rfl).1⟩

/-- What a step needs is alive. -/
theorem Nested.needs (h : Nested live ks trace) (hlive : live.Nodup)
    {before rest : List (Act κ)} {a : Act κ} (htrace : trace = before++a::rest) {k : κ}
    (hk : a.Needs k) : (k ∈ created before ∨ k ∈ live) ∧ k ∉ deleted before := by
  induction h generalizing before rest with
  | nil => simp at htrace
  | @quiet live ks a' trace ha _ ih =>
    cases before with
    | nil =>
      obtain ⟨rfl,_⟩ := List.cons.inj htrace
      rcases hk with hk | hk
      · exact ⟨Or.inr (ha.uses k hk),List.not_mem_nil⟩
      · cases ha.deletes.symm.trans hk
    | cons b before =>
      obtain ⟨rfl,htail⟩ := List.cons.inj htrace
      rw [created,deleted,List.filterMap_cons_none ha.creates,List.filterMap_cons_none ha.deletes]
      exact ih hlive htail
  | @bracket live ks a' d k' body ha h hd ih =>
    have hinner : (k'::live).Nodup := List.nodup_cons.mpr ⟨ha.fresh,hlive⟩
    cases before with
    | nil =>
      obtain ⟨rfl,_⟩ := List.cons.inj htrace
      rcases hk with hk | hk
      · exact ⟨Or.inr (ha.uses k hk),List.not_mem_nil⟩
      · cases ha.deletes.symm.trans hk
    | cons b before =>
      obtain ⟨rfl,htail⟩ := List.cons.inj htrace
      rw [created,deleted,List.filterMap_cons_some ha.creates,List.filterMap_cons_none ha.deletes]
      rcases split_last htail with ⟨rfl,rfl⟩ | ⟨rest',hbody⟩
      · -- The step is the deletion itself.
        obtain rfl : k = k' := by
          rcases hk with hk | hk
          · rw [hd.uses] at hk
            cases hk
          · exact (Option.some.inj (hd.deletes.symm.trans hk)).symm
        refine ⟨Or.inl List.mem_cons_self,?_⟩
        have hdead := h.deleted_eq
        rw [deleted] at hdead
        rw [hdead,List.mem_reverse]
        intro hmem
        exact (List.nodup_append.mp (h.nodup hinner)).2.2 k hmem k List.mem_cons_self rfl
      · obtain ⟨halive,hdeleted⟩ := ih hinner hbody
        refine ⟨?_,hdeleted⟩
        rcases halive with hmem | hmem
        · exact Or.inl (List.mem_cons_of_mem _ hmem)
        · rcases List.mem_cons.mp hmem with rfl | hmem
          · exact Or.inl List.mem_cons_self
          · exact Or.inr hmem

/-- Everything that is created is deleted once, the last first, and nothing is used or deleted
that is not alive. -/
structure TornDown (trace : List (Act κ)) : Prop where
  distinct : (created trace).Nodup
  reversed : deleted trace = (created trace).reverse
  needs : ∀ before a rest, trace = before++a::rest → ∀ k, a.Needs k →
    k ∈ created before ∧ k ∉ deleted before

theorem Nested.tornDown (h : Nested [] ks trace) : TornDown trace := by
  refine ⟨?_,?_,?_⟩
  · have hnodup := h.nodup List.nodup_nil
    rw [List.append_nil] at hnodup
    rwa [h.created_eq]
  · rw [h.deleted_eq,h.created_eq]
  · intro before a rest htrace k hk
    obtain ⟨halive,hdeleted⟩ := h.needs List.nodup_nil htrace hk
    exact ⟨halive.resolve_right List.not_mem_nil,hdeleted⟩

/-- While the first things are alive, the trace creates the second ones, each inside the last,
and deletes nothing. -/
inductive Opens : List κ → List κ → List (Act κ) → Prop
  | nil {live : List κ} : Opens live [] []
  | quiet {live ks : List κ} {a : Act κ} {trace : List (Act κ)} (ha : a.Quiet live)
      (h : Opens live ks trace) : Opens live ks (a::trace)
  | creates {live ks : List κ} {a : Act κ} {k : κ} {trace : List (Act κ)} (ha : a.Creates live k)
      (h : Opens (k::live) ks trace) : Opens live (k::ks) (a::trace)

/-- The trace deletes the second things, the first of them first, down to the first ones. -/
inductive Closes : List κ → List κ → List (Act κ) → Prop
  | nil {live : List κ} : Closes live [] []
  | quiet {live ks : List κ} {a : Act κ} {trace : List (Act κ)} (ha : a.Quiet (ks++live))
      (h : Closes live ks trace) : Closes live ks (a::trace)
  | deletes {live ks : List κ} {a : Act κ} {k : κ} {trace : List (Act κ)} (ha : a.Deletes k)
      (h : Closes live ks trace) : Closes live (k::ks) (a::trace)

/-- The trace creates the things and then deletes them again, the last first. -/
def Unwinds (live ks : List κ) (trace : List (Act κ)) : Prop :=
  ∃ up down, trace = up++down ∧ Opens live ks up ∧ Closes live ks.reverse down

section Unwinding

variable {ks' : List κ} {trace' : List (Act κ)} {before rest : List (Act κ)} {a : Act κ} {k : κ}

theorem opens_quiet (h : ∀ a ∈ trace, a.Quiet live) : Opens live [] trace := by
  induction trace with
  | nil => exact .nil
  | cons a trace ih =>
    exact .quiet (h a List.mem_cons_self) (ih fun b hb => h b (List.mem_cons_of_mem _ hb))

theorem unwinds_quiet (h : ∀ a ∈ trace, a.Quiet live) : Unwinds live [] trace :=
  ⟨trace,[],(List.append_nil trace).symm,opens_quiet h,.nil⟩

theorem Unwinds.quiet (h : Unwinds live ks trace) (ha : a.Quiet live) :
    Unwinds live ks (a::trace) := by
  obtain ⟨up,down,rfl,hup,hdown⟩ := h
  exact ⟨a::up,down,rfl,.quiet ha hup,hdown⟩

theorem closes_quiet (h : ∀ a ∈ trace, a.Quiet (ks++live)) (h' : Closes live ks trace') :
    Closes live ks (trace++trace') := by
  induction trace with
  | nil => exact h'
  | cons a trace ih =>
    exact .quiet (h a List.mem_cons_self) (ih fun b hb => h b (List.mem_cons_of_mem _ hb))

theorem Opens.append (h : Opens live ks trace) (h' : Opens (ks.reverse++live) ks' trace') :
    Opens live (ks++ks') (trace++trace') := by
  induction h with
  | nil => exact h'
  | quiet ha _ ih => exact .quiet ha (ih h')
  | creates ha _ ih =>
    rw [List.reverse_cons,List.append_assoc] at h'
    exact .creates ha (ih h')

theorem Closes.append (h : Closes (ks'++live) ks trace) (h' : Closes live ks' trace') :
    Closes live (ks++ks') (trace++trace') := by
  induction h with
  | nil => exact h'
  | quiet ha _ ih =>
    rw [← List.append_assoc] at ha
    exact .quiet ha ih
  | deletes ha _ ih => exact .deletes ha ih

/-- What is open around a trace that unwinds is closed behind it. -/
theorem Unwinds.bracket {opening closing : List (Act κ)} (ho : Opens live ks opening)
    (h : Unwinds (ks.reverse++live) ks' trace) (hc : Closes live ks.reverse closing) :
    Unwinds live (ks++ks') (opening++(trace++closing)) := by
  obtain ⟨up,down,rfl,hup,hdown⟩ := h
  refine ⟨opening++up,down++closing,by simp only [List.append_assoc],ho.append hup,?_⟩
  rw [List.reverse_append]
  exact hdown.append hc

theorem Opens.created_eq (h : Opens live ks trace) : created trace = ks := by
  induction h with
  | nil => rfl
  | quiet ha _ ih => rwa [created,List.filterMap_cons_none ha.creates]
  | creates ha _ ih =>
    rw [created] at ih ⊢
    rw [List.filterMap_cons_some ha.creates,ih]

theorem Opens.deleted_eq (h : Opens live ks trace) : deleted trace = [] := by
  induction h with
  | nil => rfl
  | quiet ha _ ih => rwa [deleted,List.filterMap_cons_none ha.deletes]
  | creates ha _ ih => rwa [deleted,List.filterMap_cons_none ha.deletes]

theorem Closes.created_eq (h : Closes live ks trace) : created trace = [] := by
  induction h with
  | nil => rfl
  | quiet ha _ ih => rwa [created,List.filterMap_cons_none ha.creates]
  | deletes ha _ ih => rwa [created,List.filterMap_cons_none ha.creates]

theorem Closes.deleted_eq (h : Closes live ks trace) : deleted trace = ks := by
  induction h with
  | nil => rfl
  | quiet ha _ ih => rwa [deleted,List.filterMap_cons_none ha.deletes]
  | deletes ha _ ih =>
    rw [deleted] at ih ⊢
    rw [List.filterMap_cons_some ha.deletes,ih]

theorem Opens.nodup (h : Opens live ks trace) (hlive : live.Nodup) :
    (ks.reverse++live).Nodup := by
  induction h with
  | nil => exact hlive
  | quiet _ _ ih => exact ih hlive
  | creates ha _ ih =>
    rw [List.reverse_cons,List.append_assoc]
    exact ih (List.nodup_cons.mpr ⟨ha.fresh,hlive⟩)

theorem Opens.needs (h : Opens live ks trace) (htrace : trace = before++a::rest)
    (hk : a.Needs k) : k ∈ created before ∨ k ∈ live := by
  induction h generalizing before with
  | nil => simp at htrace
  | quiet ha _ ih =>
    cases before with
    | nil =>
      obtain ⟨rfl,_⟩ := List.cons.inj htrace
      rcases hk with hk | hk
      · exact Or.inr (ha.uses k hk)
      · cases ha.deletes.symm.trans hk
    | cons b before =>
      obtain ⟨rfl,htail⟩ := List.cons.inj htrace
      rw [created,List.filterMap_cons_none ha.creates]
      exact ih htail
  | @creates live ks a' k' trace ha _ ih =>
    cases before with
    | nil =>
      obtain ⟨rfl,_⟩ := List.cons.inj htrace
      rcases hk with hk | hk
      · exact Or.inr (ha.uses k hk)
      · cases ha.deletes.symm.trans hk
    | cons b before =>
      obtain ⟨rfl,htail⟩ := List.cons.inj htrace
      rw [created,List.filterMap_cons_some ha.creates,List.mem_cons]
      rcases ih htail with hmem | hmem
      · exact Or.inl (Or.inr hmem)
      · exact (List.mem_cons.mp hmem).imp Or.inl id

theorem Closes.needs (h : Closes live ks trace) (hnodup : (ks++live).Nodup)
    (htrace : trace = before++a::rest) (hk : a.Needs k) :
    k ∈ ks++live ∧ k ∉ deleted before := by
  induction h generalizing before with
  | nil => simp at htrace
  | quiet ha _ ih =>
    cases before with
    | nil =>
      obtain ⟨rfl,_⟩ := List.cons.inj htrace
      rcases hk with hk | hk
      · exact ⟨ha.uses k hk,List.not_mem_nil⟩
      · cases ha.deletes.symm.trans hk
    | cons b before =>
      obtain ⟨rfl,htail⟩ := List.cons.inj htrace
      rw [deleted,List.filterMap_cons_none ha.deletes]
      exact ih hnodup htail
  | @deletes ks a' k' trace ha _ ih =>
    cases before with
    | nil =>
      obtain ⟨rfl,_⟩ := List.cons.inj htrace
      rcases hk with hk | hk
      · rw [ha.uses] at hk
        cases hk
      · rw [Option.some.inj (hk.symm.trans ha.deletes)]
        exact ⟨List.mem_cons_self,List.not_mem_nil⟩
    | cons b before =>
      obtain ⟨rfl,htail⟩ := List.cons.inj htrace
      obtain ⟨hfresh,hnodup⟩ := List.nodup_cons.mp hnodup
      obtain ⟨hmem,hdeleted⟩ := ih hnodup htail
      rw [deleted,List.filterMap_cons_some ha.deletes,List.mem_cons,not_or]
      exact ⟨List.mem_cons_of_mem _ hmem,fun heq => hfresh (heq ▸ hmem),hdeleted⟩

theorem created_append (first second : List (Act κ)) :
    created (first++second) = created first++created second := List.filterMap_append

theorem deleted_append (first second : List (Act κ)) :
    deleted (first++second) = deleted first++deleted second := List.filterMap_append

/-- A step of two traces lies in the second or in the first. -/
theorem split_append {α : Type} {first second before rest : List α} {a : α}
    (h : first++second = before++a::rest) :
    (∃ middle, before = first++middle ∧ second = middle++a::rest) ∨
      ∃ middle, first = before++a::middle := by
  rcases List.append_eq_append_iff.mp h with ⟨middle,hbefore,hsecond⟩ | ⟨middle,hfirst,hrest⟩
  · exact Or.inl ⟨middle,hbefore,hsecond⟩
  · cases middle with
    | nil =>
      rw [List.append_nil] at hfirst
      exact Or.inl ⟨[],by rw [hfirst,List.append_nil],hrest.symm⟩
    | cons b middle =>
      obtain ⟨rfl,_⟩ := List.cons.inj hrest
      exact Or.inr ⟨middle,hfirst⟩

theorem Unwinds.tornDown (h : Unwinds [] ks trace) : TornDown trace := by
  obtain ⟨up,down,rfl,hup,hdown⟩ := h
  have hnodup := hup.nodup List.nodup_nil
  have hcreated : created (up++down) = ks := by
    rw [created_append,hup.created_eq,hdown.created_eq,List.append_nil]
  refine ⟨?_,?_,?_⟩
  · rw [List.append_nil,List.nodup_reverse] at hnodup
    rwa [hcreated]
  · rw [hcreated,deleted_append,hup.deleted_eq,hdown.deleted_eq,List.nil_append]
  · intro before a rest htrace k hk
    rcases split_append htrace with ⟨middle,rfl,hmiddle⟩ | ⟨middle,hmiddle⟩
    · -- The step is one of those that take down, and all that was created is still there.
      obtain ⟨hmem,hlive⟩ := hdown.needs hnodup hmiddle hk
      rw [List.append_nil,List.mem_reverse] at hmem
      rw [created_append,deleted_append,hup.created_eq,hup.deleted_eq,List.nil_append]
      exact ⟨List.mem_append_left _ hmem,hlive⟩
    · have hdead : deleted before = [] := by
        have hall := hup.deleted_eq
        rw [hmiddle,deleted_append] at hall
        exact (List.append_eq_nil_iff.mp hall).1
      rw [hdead]
      exact ⟨(hup.needs hmiddle hk).resolve_right List.not_mem_nil,List.not_mem_nil⟩

/-- Everything that is created stays, and nothing is used that is not there. -/
structure Held (trace : List (Act κ)) : Prop where
  distinct : (created trace).Nodup
  kept : deleted trace = []
  needs : ∀ before a rest, trace = before++a::rest → ∀ k, a.Needs k → k ∈ created before

theorem Opens.held (h : Opens [] ks trace) : Held trace := by
  have hnodup := h.nodup List.nodup_nil
  rw [List.append_nil,List.nodup_reverse] at hnodup
  exact ⟨h.created_eq.symm ▸ hnodup,h.deleted_eq,fun before a rest htrace k hk =>
    (h.needs htrace hk).resolve_right List.not_mem_nil⟩

end Unwinding

end Lifetimes
end RemotePkgInstaller
