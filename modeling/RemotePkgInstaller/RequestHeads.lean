import RemotePkgInstaller.ReceivedRequests
import Mathlib.Data.List.Induction

/-! What the server makes of a well formed request: it stands at the head until the empty
line has arrived, finds a header among the lines, and waits for the body that the head has
announced. -/
namespace RemotePkgInstaller
namespace RequestHeads

open ReceivedRequests SendStream Settings

/-- The lines of a head, with the empty line that ends it. -/
def headText : List Bytes → Bytes
  | [] => crlf
  | line::lines => line++crlf++headText lines

/-- A line that is not empty and in which nothing ends a line or a string. -/
structure IsLine (line : Bytes) : Prop where
  ne_nil : line ≠ []
  nul : (0 : UInt8) ∉ line
  cr : (0x0d : UInt8) ∉ line

section Ends

theorem take_line_of_append {line rest front back : Bytes} (hline : (0x0d : UInt8) ∉ line)
    (h : front++0x0d::back = line++rest) : ∃ front', front = line++front' ∧
      front'++0x0d::back = rest := by
  induction line generalizing front with
  | nil => exact ⟨front,rfl,h⟩
  | cons c line ih =>
    simp only [List.mem_cons,not_or] at hline
    cases front with
    | nil =>
      simp only [List.nil_append,List.cons_append,List.cons.injEq] at h
      exact absurd h.1 hline.1
    | cons d front =>
      simp only [List.cons_append,List.cons.injEq] at h
      obtain ⟨front',rfl,hrest⟩ := ih hline.2 h.2
      exact ⟨front',by rw [h.1]; rfl,hrest⟩

theorem headText_head {lines : List Bytes} (hlines : ∀ line ∈ lines, IsLine line) {rest : Bytes}
    (h : 0x0d::rest = headText lines) : lines = [] := by
  cases lines with
  | nil => rfl
  | cons line lines =>
    have hline := hlines line List.mem_cons_self
    obtain ⟨c,line',rfl⟩ := List.exists_cons_of_ne_nil hline.ne_nil
    simp only [headText,List.cons_append,List.cons.injEq] at h
    exact absurd (h.1 ▸ List.mem_cons_self) hline.cr

/-- Two line ends in a row only stand at the end of a head. -/
theorem head_ends {lines : List Bytes} (hlines : ∀ line ∈ lines, IsLine line)
    {front back : Bytes} (h : front++(crlf++crlf)++back = headText lines) : back = [] := by
  induction lines generalizing front with
  | nil =>
    have hlen := congrArg List.length h
    simp only [headText,crlf,List.length_append,List.length_cons,List.length_nil] at hlen
    omega
  | cons line lines ih =>
    have hline := hlines line List.mem_cons_self
    have hrest := fun l hl => hlines l (List.mem_cons_of_mem line hl)
    simp only [headText,crlf,List.append_assoc,List.cons_append,List.nil_append] at h
    obtain ⟨front',rfl,hfront⟩ := take_line_of_append hline.cr h
    match front',hfront with
    | [],hfront =>
      simp only [List.nil_append,List.cons.injEq,true_and] at hfront
      have hnil := headText_head hrest hfront
      subst hnil
      simpa [headText,crlf] using hfront
    | [c],hfront => simp at hfront
    | c::d::front',hfront =>
      simp only [List.cons_append,List.cons.injEq] at hfront
      refine @ih hrest front' ?_
      simpa [crlf] using hfront.2.2

/-- So does a head that has not arrived in full. -/
theorem not_ends_of_missing {lines : List Bytes} (hlines : ∀ line ∈ lines, IsLine line)
    {arrived rest : Bytes} (h : arrived++rest = headText lines) (hrest : rest ≠ []) :
    ¬ crlf++crlf <:+ arrived := by
  rintro ⟨front,rfl⟩
  exact hrest (head_ends hlines h)

end Ends

section Receiving

variable {wide : ℕ → UInt32}

theorem recv_append (reception : Reception) (first rest : Bytes) :
    Reception.recv wide reception (first++rest) =
      Reception.recv wide (Reception.recv wide reception first) rest :=
  List.foldl_append

theorem recv_done {reception : Reception} (h : ∀ st, reception ≠ .receiving st) (arrived : Bytes) :
    Reception.recv wide reception arrived = reception := by
  induction arrived with
  | nil => rfl
  | cons c arrived ih =>
    cases reception with
    | receiving st => exact absurd rfl (h st)
    | request r => exact ih
    | closed => exact ih
    | stuck => exact ih

theorem handleRequest_done (st st' : Receiving) : handleRequest st ≠ .receiving st' := by
  unfold handleRequest
  split
  · exact nofun
  · split_ifs <;> exact nofun

/-- Until the header has ended, its bytes are only collected. -/
theorem recv_collected {arrived : Bytes}
    (h : ∀ front, front <+: arrived → ¬ crlf++crlf <:+ front) :
    Reception.recv wide (.receiving .start) arrived = .receiving ⟨false,arrived,0,0⟩ := by
  induction arrived using List.reverseRecOn with
  | nil => rfl
  | append_singleton arrived c ih =>
    rw [recv_append,ih fun front hfront => h front (hfront.trans (List.prefix_append ..))]
    have hheader : ¬ endsHeader ⟨false,arrived++[c],0,0⟩ := fun hh =>
      h _ (List.prefix_refl _) hh.2
    change recvByte wide ⟨false,arrived,0,0⟩ c = _
    rw [recvByte]
    simp only [hheader,if_false,checkComplete]
    rw [if_neg]
    simp

/-- While the head is not complete, its bytes are only collected. -/
theorem recv_head {lines : List Bytes} (hlines : ∀ line ∈ lines, IsLine line) {arrived : Bytes}
    {rest : Bytes} (h : arrived++rest = headText lines) (hrest : rest ≠ []) :
    Reception.recv wide (.receiving .start) arrived = .receiving ⟨false,arrived,0,0⟩ := by
  refine recv_collected fun front ⟨back,hback⟩ => ?_
  have hmissing : back++rest ≠ [] := fun hnil => hrest (List.append_eq_nil_iff.mp hnil).2
  exact not_ends_of_missing hlines (by rw [← List.append_assoc,hback,h]) hmissing

/-- What becomes of the header, once it is there. -/
def headReception (wide : ℕ → UInt32) (head : Bytes) : Option (Option Bytes) → Reception
  | none => .stuck
  | some none => handleRequest ⟨true,head,0,0⟩
  | some (some s) =>
    checkComplete ⟨true,head,head.length+(strToUint wide s).toNat,head.length⟩

theorem headText_ends {lines : List Bytes} (hne : lines ≠ []) :
    ∃ front, headText lines = front++(crlf++crlf) := by
  induction lines with
  | nil => exact absurd rfl hne
  | cons line lines ih =>
    by_cases hnil : lines = []
    · exact ⟨line,by rw [hnil]; simp [headText]⟩
    · obtain ⟨front,hfront⟩ := ih hnil
      exact ⟨line++crlf++front,by rw [headText,hfront]; simp⟩

theorem ne_zero_headText {lines : List Bytes} (hlines : ∀ line ∈ lines, IsLine line) :
    ∀ c ∈ headText lines, c ≠ 0 := by
  induction lines with
  | nil => decide +kernel
  | cons line lines ih =>
    intro c hc
    simp only [headText,List.mem_append] at hc
    rcases hc with (hc | hc) | hc
    · rintro rfl
      exact (hlines line List.mem_cons_self).nul hc
    · rintro rfl
      exact absurd hc (by decide)
    · exact ih (fun l hl => hlines l (List.mem_cons_of_mem _ hl)) c hc

/-- The empty line ends the head. -/
theorem recv_headText {lines : List Bytes} (hne : lines ≠ []) (hlines : ∀ line ∈ lines, IsLine line) :
    Reception.recv wide (.receiving .start) (headText lines) =
      headReception wide (headText lines) (findHeaderValue (bytes "Content-Length")
        ((headText lines).length+1) (headText lines)) := by
  obtain ⟨front,hfront⟩ := headText_ends hne
  have hsplit : headText lines = (front++[0x0d,0x0a,0x0d])++[0x0a] := by
    rw [hfront]
    simp [crlf]
  have hcstr : cstr (headText lines) = headText lines := cstr_eq_self (ne_zero_headText hlines)
  have hheader : endsHeader ⟨false,headText lines,0,0⟩ := ⟨rfl,front,hfront.symm⟩
  have hlast : Reception.recv wide (.receiving .start) (headText lines) =
      recvByte wide ⟨false,front++[0x0d,0x0a,0x0d],0,0⟩ 0x0a := by
    rw [hsplit,recv_append,recv_head hlines hsplit.symm (List.cons_ne_nil _ _)]
    rfl
  rw [hlast,recvByte]
  simp only [← hsplit]
  rw [if_pos hheader,hcstr]
  generalize findHeaderValue (bytes "Content-Length") ((headText lines).length+1) (headText lines) =
    found
  rcases found with _ | _ | s <;> rfl

/-- The body is collected until it is there. -/
theorem recv_body {st : Receiving} (hdone : st.headerDone = true)
    (hlt : st.recvBuf.length < st.expectedRecvLen) (arrived : Bytes) :
    Reception.recv wide (.receiving st) arrived =
      if st.recvBuf.length+arrived.length < st.expectedRecvLen then
        .receiving { st with recvBuf := st.recvBuf++arrived }
      else handleRequest { st with
        recvBuf := st.recvBuf++arrived.take (st.expectedRecvLen-st.recvBuf.length) } := by
  induction arrived generalizing st with
  | nil => simp [Reception.recv,hlt]
  | cons c arrived ih =>
    obtain ⟨st',hst⟩ : ∃ st' : Receiving, st' = { st with recvBuf := st.recvBuf++[c] } := ⟨_,rfl⟩
    have hheader : ¬ endsHeader st' := by
      rintro ⟨hfalse,_⟩
      rw [hst,hdone] at hfalse
      cases hfalse
    have hlen : st'.recvBuf.length = st.recvBuf.length+1 := by simp [hst]
    have hexpected : st'.expectedRecvLen = st.expectedRecvLen := by rw [hst]
    have hbyte : Reception.recv wide (.receiving st) (c::arrived) =
        Reception.recv wide (checkComplete st') arrived := by
      change Reception.recv wide (recvByte wide st c) arrived = _
      rw [recvByte]
      simp only [← hst,hheader,if_false]
    rw [hbyte,checkComplete,hlen,hexpected]
    by_cases hlast : st.expectedRecvLen = st.recvBuf.length+1
    · have htake : st.expectedRecvLen-st.recvBuf.length = 1 := by omega
      rw [if_pos hlast,recv_done (handleRequest_done st'),if_neg (by simp; omega),htake,hst]
      rfl
    · have hst' := @ih st' (by rw [hst]; exact hdone) (by omega)
      obtain ⟨k,hk⟩ : ∃ k, st.expectedRecvLen-st.recvBuf.length = k+1 :=
        ⟨st.expectedRecvLen-st.recvBuf.length-1,by omega⟩
      have hk' : st'.expectedRecvLen-st'.recvBuf.length = k := by omega
      rw [if_neg hlast,hst',hk,hk',hlen,hexpected,List.length_cons]
      simp only [hst,List.append_assoc,List.singleton_append,List.take_succ_cons,Nat.add_assoc,
        Nat.add_comm 1]

end Receiving

section Fields

variable {field line rest : Bytes}

/-- The line is that of a field, in any case. -/
def Names (field line : Bytes) : Prop :=
  sameNoCase (line.take field.length) field = true ∧ (line.drop field.length).head? = some 0x3a

instance (field line : Bytes) : Decidable (Names field line) := inferInstanceAs (Decidable (_ ∧ _))

theorem toLower_eq_cr {c : UInt8} (h : toLower c = 0x0d) : c = 0x0d := by
  have hall : ∀ n < 256, toLower (UInt8.ofNat n) = 0x0d → UInt8.ofNat n = 0x0d := by decide +kernel
  have hc := hall c.toNat c.toNat_lt
  rw [UInt8.ofNat_toNat] at hc
  exact hc h

/-- What follows the carriage return behind a line does not make it a field. -/
theorem names_return_iff (hcr : (0x0d : UInt8) ∉ field) :
    Names field (line++0x0d::rest) ↔ Names field line := by
  rcases lt_trichotomy line.length field.length with hlt | heq | hgt
  · refine iff_of_false (fun h => ?_) (fun h => ?_)
    · have hmem : (0x0d : UInt8) ∈ ((line++0x0d::rest).take field.length).map toLower := by
        refine List.mem_map.mpr ⟨0x0d,?_,rfl⟩
        rw [List.take_append,List.take_of_length_le hlt.le]
        obtain ⟨k,hk⟩ : ∃ k, field.length-line.length = k+1 := ⟨field.length-line.length-1,by omega⟩
        rw [hk]
        simp
      have hsame : ((line++0x0d::rest).take field.length).map toLower = field.map toLower := by
        simpa [sameNoCase] using h.1
      rw [hsame] at hmem
      obtain ⟨c,hc,hlower⟩ := List.mem_map.mp hmem
      exact hcr (toLower_eq_cr hlower ▸ hc)
    · have hnil : line.drop field.length = [] := List.drop_of_length_le hlt.le
      have hhead := h.2
      rw [hnil] at hhead
      cases hhead
  · refine iff_of_false (fun h => ?_) (fun h => ?_)
    · have hhead := h.2
      rw [← heq,List.drop_left] at hhead
      simp at hhead
    · have hhead := h.2
      rw [← heq,List.drop_length] at hhead
      cases hhead
  · obtain ⟨c,tail,hdrop⟩ := List.exists_cons_of_ne_nil
      (l := line.drop field.length) (by simpa using hgt)
    rw [Names,Names,List.take_append_of_le_length hgt.le,List.drop_append_of_le_length hgt.le,
      hdrop]
    simp

theorem names_append_iff (hcr : (0x0d : UInt8) ∉ field) :
    Names field (line++crlf++rest) ↔ Names field line := by
  rw [List.append_assoc]
  exact names_return_iff hcr

theorem not_header_end (hline : IsLine line) :
    ¬ (line++crlf++rest = [] ∨ crlf <+: line++crlf++rest) := by
  obtain ⟨c,line',rfl⟩ := List.exists_cons_of_ne_nil hline.ne_nil
  rintro (h | h)
  · cases h
  · simp only [crlf,List.cons_append,List.cons_prefix_cons] at h
    exact hline.cr (h.1 ▸ List.mem_cons_self)

theorem findHeaderValue_skip (hcr : (0x0d : UInt8) ∉ field) (hline : IsLine line)
    (hnames : ¬ Names field line) (fuel : ℕ) :
    findHeaderValue field (fuel+1) (line++crlf++rest) = findHeaderValue field fuel rest := by
  have hother : ¬ Names field (line++crlf++rest) := by rwa [names_append_iff hcr]
  rw [Names] at hother
  have hdrop : (line++crlf++rest).dropWhile (· ≠ 0x0d) = crlf++rest := by
    rw [List.append_assoc,List.dropWhile_append_of_pos]
    · rfl
    · intro d hd
      simp only [ne_eq,decide_eq_true_eq]
      exact fun h => hline.cr (h ▸ hd)
  rw [findHeaderValue,if_neg (not_header_end hline),if_neg hother]
  simp only [hdrop,List.prefix_append,if_true]
  rfl

theorem findHeaderValue_found (hcr : (0x0d : UInt8) ∉ field) (hline : IsLine line)
    (hnames : Names field line) (fuel : ℕ) :
    findHeaderValue field (fuel+1) (line++crlf++rest) =
      some (some (((line++crlf++rest).drop (field.length+1)).dropWhile
        fun c => c = 0x20 ∨ c = 0x09)) := by
  rw [findHeaderValue,if_neg (not_header_end hline)]
  exact if_pos ((names_append_iff hcr).mpr hnames)

/-- Without a line for the field, its search ends at the empty line. -/
theorem findHeaderValue_headText_none (hcr : (0x0d : UInt8) ∉ field) {lines : List Bytes}
    (hlines : ∀ line ∈ lines, IsLine line) (hnames : ∀ line ∈ lines, ¬ Names field line)
    {fuel : ℕ} (hfuel : lines.length < fuel) :
    findHeaderValue field fuel (headText lines) = some none := by
  induction lines generalizing fuel with
  | nil =>
    obtain ⟨fuel,rfl⟩ := Nat.exists_eq_add_one.mpr (Nat.zero_lt_of_lt hfuel)
    exact if_pos (Or.inr (List.prefix_refl _))
  | cons line lines ih =>
    obtain ⟨fuel,rfl⟩ := Nat.exists_eq_add_one.mpr (Nat.zero_lt_of_lt hfuel)
    rw [headText,findHeaderValue_skip hcr (hlines line List.mem_cons_self)
      (hnames line List.mem_cons_self)]
    exact ih (fun l hl => hlines l (List.mem_cons_of_mem _ hl))
      (fun l hl => hnames l (List.mem_cons_of_mem _ hl)) (by simpa using hfuel)

/-- The first line for the field is found. -/
theorem findHeaderValue_headText (hcr : (0x0d : UInt8) ∉ field) {before : List Bytes}
    (after : List Bytes)
    (hbefore : ∀ l ∈ before, IsLine l) (hother : ∀ l ∈ before, ¬ Names field l)
    (hline : IsLine line) (hnames : Names field line) {fuel : ℕ} (hfuel : before.length < fuel) :
    findHeaderValue field fuel (headText (before++line::after)) =
      some (some (((line++crlf++headText after).drop (field.length+1)).dropWhile
        fun c => c = 0x20 ∨ c = 0x09)) := by
  induction before generalizing fuel with
  | nil =>
    obtain ⟨fuel,rfl⟩ := Nat.exists_eq_add_one.mpr (Nat.zero_lt_of_lt hfuel)
    exact findHeaderValue_found hcr hline hnames fuel
  | cons l before ih =>
    obtain ⟨fuel,rfl⟩ := Nat.exists_eq_add_one.mpr (Nat.zero_lt_of_lt hfuel)
    rw [List.cons_append,headText,findHeaderValue_skip hcr (hbefore l List.mem_cons_self)
      (hother l List.mem_cons_self)]
    exact ih (fun m hm => hbefore m (List.mem_cons_of_mem _ hm))
      (fun m hm => hother m (List.mem_cons_of_mem _ hm)) (by simpa using hfuel)

theorem length_le_headText (lines : List Bytes) : lines.length ≤ (headText lines).length := by
  induction lines with
  | nil => exact Nat.zero_le _
  | cons line lines ih =>
    simp only [headText,crlf,List.length_append,List.length_cons,List.length_nil]
    omega

end Fields

section Length

open Decimal

/-- What a decimal number at the beginning of a line is read as. -/
theorem strToUint_text (wide : ℕ → UInt32) (n : ℕ) (rest : Bytes) :
    strToUint wide (Decimal.text n++(crlf++rest)) =
      if n < 2^32 then UInt32.ofNat n else wide n := by
  obtain ⟨c,ds,hcons,hc,_⟩ := text_cons n
  have hne : ∀ d : UInt8, isdigit d = false → c ≠ d := fun d => head_ne_of_isdigit hc
  have hspace : isspace c = false := by
    have hall : ∀ d < 256, isdigit (UInt8.ofNat d) = true → isspace (UInt8.ofNat d) = false := by
      decide +kernel
    have hd := hall c.toNat c.toNat_lt
    rw [UInt8.ofNat_toNat] at hd
    exact hd hc
  have hdrop : (Decimal.text n++(crlf++rest)).dropWhile isspace = Decimal.text n++(crlf++rest) := by
    rw [hcons]
    simp [hspace]
  have htake : (Decimal.text n++(crlf++rest)).takeWhile isdigit = Decimal.text n := by
    rw [List.takeWhile_append_of_pos (text_isdigit n)]
    simp [crlf,isdigit]
  rw [strToUint,hdrop]
  split
  · next heq =>
    rw [hcons] at heq
    exact absurd (List.cons.inj heq).1 (hne _ (by decide))
  · next heq =>
    rw [hcons] at heq
    exact absurd (List.cons.inj heq).1 (hne _ (by decide))
  · rw [htake,value_text]

end Length

section RequestLine

/-- A word of the request line. -/
structure IsWord (word : Bytes) : Prop where
  ne_nil : word ≠ []
  space : ∀ c ∈ word, isspace c = false
  nul : (0 : UInt8) ∉ word

variable {method target version word rest : Bytes}

theorem IsWord.cr (h : IsWord word) : (0x0d : UInt8) ∉ word := by
  intro hmem
  exact absurd (h.space _ hmem) (by decide)

theorem dropWhile_word (h : IsWord word) : (word++rest).dropWhile isspace = word++rest := by
  obtain ⟨c,word',rfl⟩ := List.exists_cons_of_ne_nil h.ne_nil
  have hc := h.space c List.mem_cons_self
  simp [hc]

theorem scanWord_word (h : IsWord word) {width : ℕ} (hwidth : 0 < width) {c : UInt8}
    (hc : isspace c = true) :
    scanWord width (word++c::rest) =
      some (word.take width,(word++c::rest).drop (word.take width).length) := by
  have htake : (word++c::rest).takeWhile (fun d => ¬ isspace d) = word := by
    rw [List.takeWhile_append_of_pos]
    · simp [hc]
    · intro d hd
      simp [h.space d hd]
  have hne : word.take width ≠ [] := by
    obtain ⟨d,word',rfl⟩ := List.exists_cons_of_ne_nil h.ne_nil
    obtain ⟨width,rfl⟩ := Nat.exists_eq_add_one.mpr hwidth
    exact List.cons_ne_nil _ _
  simp only [scanWord]
  rw [htake,if_neg hne]

theorem scanWord_whole (h : IsWord word) {width : ℕ} (hwidth : word.length ≤ width) {c : UInt8}
    (hc : isspace c = true) : scanWord width (word++c::rest) = some (word,c::rest) := by
  have hpos : 0 < word.length := List.length_pos_iff.mpr h.ne_nil
  rw [scanWord_word h (hpos.trans_le hwidth) hc,List.take_of_length_le hwidth,List.drop_left]

/-- The first line of a request. -/
def requestText (method target version : Bytes) : Bytes := method++0x20::(target++0x20::version)

theorem isLine_requestText (hmethod : IsWord method) (htarget : IsWord target)
    (hversion : IsWord version) : IsLine (requestText method target version) := by
  refine ⟨by simp [requestText],?_,?_⟩
  · simp [requestText,hmethod.nul,htarget.nul,hversion.nul]
  · simp [requestText,hmethod.cr,htarget.cr,hversion.cr]

theorem requestLine_eq (hmethod : IsWord method) (hlen : method.length ≤ 15)
    (htarget : IsWord target) (hversion : IsWord version) (hrest : (0 : UInt8) ∉ rest) :
    requestLine (requestText method target version++crlf++rest) =
      some (method,method.length+1,version.take 15) := by
  have hspace : isspace 0x20 = true := by decide
  have hcr : isspace 0x0d = true := by decide
  have hcstr : cstr (requestText method target version++crlf++rest) =
      method++0x20::(target++0x20::(version++0x0d::0x0a::rest)) := by
    rw [cstr_eq_self]
    · simp [requestText,crlf]
    · rintro c hc rfl
      simp [requestText,crlf,hmethod.nul,htarget.nul,hversion.nul,hrest] at hc
  have hskip : ∀ s : Bytes, (0x20::s).dropWhile isspace = s.dropWhile isspace := by
    intro s
    simp [hspace]
  have hscanned : scanWord (target++0x20::(version++0x0d::0x0a::rest)).length
      (target++0x20::(version++0x0d::0x0a::rest)) =
      some (target,0x20::(version++0x0d::0x0a::rest)) :=
    scanWord_whole htarget (by simp) hspace
  have hidx : (method++0x20::(target++0x20::(version++0x0d::0x0a::rest))).length-
      (target++0x20::(version++0x0d::0x0a::rest)).length = method.length+1 := by
    simp only [List.length_append,List.length_cons]
    omega
  simp only [requestLine,hcstr,dropWhile_word hmethod,scanWord_whole hmethod hlen hspace,
    Option.bind_eq_bind,Option.bind_some,hskip,dropWhile_word htarget,hscanned,
    dropWhile_word hversion,scanWord_word hversion (show 0 < 15 by decide) hcr,hidx]
  rfl

/-- The request whose head is complete. -/
theorem handleRequest_head (hmethod : IsWord method) (hlen : method.length ≤ 15)
    (htarget : IsWord target) (hversion : IsWord version)
    (hhttp : version.take 4 = bytes "HTTP") (hrest : (0 : UInt8) ∉ rest)
    (headerDone : Bool) (expectedRecvLen dataIdx : ℕ) :
    handleRequest ⟨headerDone,requestText method target version++crlf++rest,expectedRecvLen,dataIdx⟩ =
      .request ⟨method,
        cstr (urlDecode (target++0x20::(version++(crlf++rest))) 512).2,
        requestText method target version++crlf++rest,expectedRecvLen,dataIdx⟩ := by
  have hcstr : cstr (requestText method target version++crlf++rest) =
      requestText method target version++crlf++rest := by
    rw [cstr_eq_self]
    rintro c hc rfl
    simp [requestText,crlf,hmethod.nul,htarget.nul,hversion.nul,hrest] at hc
  have hdrop : (requestText method target version++crlf++rest).drop (method.length+1) =
      target++0x20::(version++(crlf++rest)) := by
    rw [requestText,List.append_assoc,List.append_assoc,← List.drop_drop,List.drop_left]
    simp
  have hver : (version.take 15).take 4 = bytes "HTTP" := by
    rw [List.take_take]
    exact hhttp
  simp only [handleRequest,requestLine_eq hmethod hlen htarget hversion hrest,hver,ne_eq,
    not_true_eq_false,if_false,hcstr,hdrop]

end RequestLine

end RequestHeads
end RemotePkgInstaller
