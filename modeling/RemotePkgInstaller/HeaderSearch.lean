import RemotePkgInstaller.RequestHeads

/-! `find_header_value` on whatever a client sends.  It goes on from line to line, and does not get
past a carriage return that no line feed follows: the thread that has come to one stays there. -/
namespace RemotePkgInstaller
namespace HeaderSearch

open ReceivedRequests RequestHeads SendStream

/-- Behind lines of other fields the text comes to a carriage return that no line feed follows. -/
inductive BareReturn (field : Bytes) : Bytes → Prop
  | here {line rest : Bytes} (hcr : (0x0d : UInt8) ∉ line) (hother : ¬ Names field line)
      (hrest : rest.head? ≠ some 0x0a) : BareReturn field (line++0x0d::rest)
  | next {line rest : Bytes} (hline : IsLine line) (hother : ¬ Names field line)
      (hrest : BareReturn field rest) : BareReturn field (line++crlf++rest)

section Search

variable {field line rest str : Bytes} {fuel : ℕ}

theorem crlf_prefix_return : crlf <+: 0x0d::rest ↔ rest.head? = some 0x0a := by
  cases rest with
  | nil => simp [crlf]
  | cons c rest => simp [crlf,eq_comm]

theorem not_names_nil (field : Bytes) : ¬ Names field [] := by
  rintro ⟨-,hhead⟩
  rw [List.drop_nil] at hhead
  cases hhead

theorem dropWhile_return (hcr : (0x0d : UInt8) ∉ line) (rest : Bytes) :
    (line++0x0d::rest).dropWhile (· ≠ 0x0d) = 0x0d::rest := by
  rw [List.dropWhile_append_of_pos]
  · rfl
  · intro c hc
    simp only [ne_eq,decide_eq_true_eq]
    exact fun h => hcr (h ▸ hc)

/-- A round at the carriage return leads to the next one there. -/
theorem findHeaderValue_here (hfield : (0x0d : UInt8) ∉ field) (hcr : (0x0d : UInt8) ∉ line)
    (hother : ¬ Names field line) (hrest : rest.head? ≠ some 0x0a) (fuel : ℕ) :
    findHeaderValue field fuel (line++0x0d::rest) = none := by
  induction fuel generalizing line with
  | zero => rfl
  | succ fuel ih =>
    have hgoes : ¬ (line++0x0d::rest = [] ∨ crlf <+: line++0x0d::rest) := by
      rintro (h | h)
      · simp at h
      · cases line with
        | nil => exact hrest (crlf_prefix_return.mp h)
        | cons c line =>
          simp only [crlf,List.cons_append,List.cons_prefix_cons] at h
          exact hcr (h.1 ▸ List.mem_cons_self)
    have hnames : ¬ Names field (line++0x0d::rest) := by rwa [names_return_iff hfield]
    have hstays : ¬ crlf <+: 0x0d::rest := fun h => hrest (crlf_prefix_return.mp h)
    rw [Names] at hnames
    rw [findHeaderValue,if_neg hgoes,if_neg hnames]
    simp only [dropWhile_return hcr,if_neg hstays]
    exact @ih [] List.not_mem_nil (not_names_nil field)

/-- However long it goes on. -/
theorem BareReturn.stuck (hfield : (0x0d : UInt8) ∉ field) (h : BareReturn field str) (fuel : ℕ) :
    findHeaderValue field fuel str = none := by
  induction h generalizing fuel with
  | here hcr hother hrest => exact findHeaderValue_here hfield hcr hother hrest fuel
  | next hline hother _ ih =>
    cases fuel with
    | zero => rfl
    | succ fuel => rw [findHeaderValue_skip hfield hline hother,ih]

/-- The first line, and what follows it. -/
theorem line_cases (str : Bytes) : (0x0d : UInt8) ∉ str ∨
    ∃ line rest, str = line++0x0d::rest ∧ (0x0d : UInt8) ∉ line := by
  by_cases h : (0x0d : UInt8) ∈ str
  · obtain ⟨line,rest,hsplit,hcr⟩ := List.eq_append_cons_of_mem h
    exact Or.inr ⟨line,rest,hsplit,hcr⟩
  · exact Or.inl h

theorem BareReturn.of_stuck (hfield : (0x0d : UInt8) ∉ field) (hnul : (0 : UInt8) ∉ str)
    (hfuel : str.length < fuel) (h : findHeaderValue field fuel str = none) :
    BareReturn field str := by
  induction fuel generalizing str with
  | zero => exact absurd hfuel (Nat.not_lt_zero _)
  | succ fuel ih =>
    rw [findHeaderValue] at h
    split_ifs at h with hends hnames
    rw [not_or] at hends
    rcases line_cases str with hcr | ⟨line,rest,rfl,hcr⟩
    · -- without a carriage return the next round is at the end
      have hdrop : str.dropWhile (· ≠ 0x0d) = [] := by
        rw [List.dropWhile_eq_nil_iff]
        intro c hc
        simp only [ne_eq,decide_eq_true_eq]
        exact fun heq => hcr (heq ▸ hc)
      have hpos : 0 < str.length := List.length_pos_iff.mpr hends.1
      obtain ⟨fuel,rfl⟩ := Nat.exists_eq_add_one.mpr (show 0 < fuel by omega)
      simp only [hdrop] at h
      simp [findHeaderValue,crlf] at h
    · have hother : ¬ Names field line := by
        exact fun h => hnames ((names_return_iff hfield).mpr h)
      simp only [dropWhile_return hcr,crlf_prefix_return] at h
      by_cases hrest : rest.head? = some 0x0a
      · obtain ⟨rest,rfl⟩ : ∃ rest', rest = 0x0a::rest' := by
          cases rest with
          | nil => cases hrest
          | cons c rest => exact ⟨rest,by rw [Option.some.inj hrest]⟩
        have hline : IsLine line := by
          refine ⟨?_,fun hmem => hnul (List.mem_append_left _ hmem),hcr⟩
          rintro rfl
          exact hends.2 (crlf_prefix_return.mpr rfl)
        have hnext : BareReturn field rest := by
          refine ih (fun hmem => hnul ?_) ?_ ?_
          · simp [hmem]
          · simp only [List.length_append,List.length_cons] at hfuel
            omega
          · simpa using h
        have hbare : BareReturn field (line++crlf++rest) := .next hline hother hnext
        rwa [List.append_assoc] at hbare
      · exact .here hcr hother hrest

/-- The search for a field never ends exactly if it meets such a carriage return. -/
theorem findHeaderValue_stuck_iff (hfield : (0x0d : UInt8) ∉ field) (hnul : (0 : UInt8) ∉ str)
    (hfuel : str.length < fuel) :
    findHeaderValue field fuel str = none ↔ BareReturn field str :=
  ⟨.of_stuck hfield hnul hfuel,fun h => h.stuck hfield fuel⟩

end Search

/-- What has arrived up to the first empty line. -/
structure FirstHead (head : Bytes) : Prop where
  ends : crlf++crlf <:+ head
  first : ∀ front, front <+: head → front ≠ head → ¬ crlf++crlf <:+ front

section Reception

variable {wide : ℕ → UInt32} {head arrived : Bytes} {reception : Reception}

/-- The header is complete, and its search has ended. -/
def PastHead : Reception → Prop
  | .receiving st => st.headerDone = true
  | .stuck => False
  | _ => True

theorem pastHead_handleRequest (st : Receiving) : PastHead (handleRequest st) := by
  unfold handleRequest
  split
  · trivial
  · split_ifs <;> trivial

theorem pastHead_checkComplete {st : Receiving} (h : st.headerDone = true) :
    PastHead (checkComplete st) := by
  unfold checkComplete
  split_ifs
  · exact pastHead_handleRequest st
  · exact h

theorem PastHead.recv (h : PastHead reception) (wide : ℕ → UInt32) (arrived : Bytes) :
    PastHead (Reception.recv wide reception arrived) := by
  induction arrived generalizing reception with
  | nil => exact h
  | cons c arrived ih =>
    refine ih ?_
    cases reception with
    | receiving st =>
      have hdone : st.headerDone = true := h
      have hheader : ¬ endsHeader { st with recvBuf := st.recvBuf++[c] } := by
        rintro ⟨hfalse,-⟩
        cases hfalse.symm.trans hdone
      have hcomplete := @pastHead_checkComplete { st with recvBuf := st.recvBuf++[c] } hdone
      dsimp only
      rw [recvByte]
      simpa only [hheader,if_false] using hcomplete
    | request r => exact h
    | closed => exact h
    | stuck => exact h

/-- At its end the header is searched. -/
theorem recv_firstHead (wide : ℕ → UInt32) (h : FirstHead head) :
    (findHeaderValue (bytes "Content-Length") ((cstr head).length+1) (cstr head) = none ∧
      Reception.recv wide (.receiving .start) head = .stuck) ∨
    (findHeaderValue (bytes "Content-Length") ((cstr head).length+1) (cstr head) ≠ none ∧
      PastHead (Reception.recv wide (.receiving .start) head)) := by
  obtain ⟨front,c,rfl⟩ : ∃ front c, head = front++[c] := by
    obtain ⟨front,hfront⟩ := h.ends
    exact ⟨front++[0x0d,0x0a,0x0d],0x0a,by rw [← hfront]; simp [crlf]⟩
  have hcollected : Reception.recv wide (.receiving .start) front =
      .receiving ⟨false,front,0,0⟩ := by
    refine recv_collected fun part hpart => h.first part (hpart.trans (List.prefix_append ..)) ?_
    rintro rfl
    have hlength := hpart.length_le
    rw [List.length_append,List.length_singleton] at hlength
    omega
  have hlast : Reception.recv wide (.receiving .start) (front++[c]) =
      recvByte wide ⟨false,front,0,0⟩ c := by
    rw [recv_append,hcollected]
    rfl
  have hheader : endsHeader ⟨false,front++[c],0,0⟩ := ⟨rfl,h.ends⟩
  rw [hlast,recvByte]
  simp only [hheader,if_true]
  cases findHeaderValue (bytes "Content-Length") ((cstr (front++[c])).length+1)
    (cstr (front++[c])) with
  | none => exact Or.inl ⟨rfl,rfl⟩
  | some found =>
    refine Or.inr ⟨Option.some_ne_none _,?_⟩
    cases found with
    | none => exact pastHead_handleRequest _
    | some s => exact pastHead_checkComplete rfl

/-- Either the empty line has not come yet, or there is a first one. -/
theorem firstHead_cases (arrived : Bytes) :
    (∀ front, front <+: arrived → ¬ crlf++crlf <:+ front) ∨
      ∃ head rest, arrived = head++rest ∧ FirstHead head := by
  induction arrived using List.reverseRecOn with
  | nil =>
    refine Or.inl fun front hfront hends => ?_
    obtain rfl := List.prefix_nil.mp hfront
    exact absurd hends (by decide)
  | append_singleton arrived c ih =>
    rcases ih with hnone | ⟨head,rest,rfl,hhead⟩
    · have hfront : ∀ front, front <+: arrived++[c] → front ≠ arrived++[c] →
          ¬ crlf++crlf <:+ front := fun front hprefix hne =>
        hnone front ((List.prefix_concat_iff.mp hprefix).resolve_left hne)
      by_cases hends : crlf++crlf <:+ arrived++[c]
      · exact Or.inr ⟨arrived++[c],[],(List.append_nil _).symm,hends,hfront⟩
      · refine Or.inl fun front hprefix => ?_
        by_cases heq : front = arrived++[c]
        · rwa [heq]
        · exact hfront front hprefix heq
    · exact Or.inr ⟨head,rest++[c],List.append_assoc ..,hhead⟩

example : received wide [bytes "GET / HTTP/1.1\r\nA\rB\r\n\r\n"] = .stuck := rfl

end Reception

end HeaderSearch
end RemotePkgInstaller
