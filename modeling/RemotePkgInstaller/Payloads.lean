import RemotePkgInstaller.EventHandler
import RemotePkgInstaller.RequestHeads

/-! The payload of a request, as the handler of its endpoint gets it.  A body is cut out of
the receive buffer by its announced length, and the variable of a query is decoded into a
buffer of fixed size; both come out whole, as long as the length fits the 32 bits that it
is read into. -/
namespace RemotePkgInstaller
namespace Payloads

open EventHandler PercentCoding ReceivedRequests RequestHeads Requests Responses SendStream
  ServerCalls Settings

section Decoding

theorem hexToInt_eq {c : UInt8} {x : ℕ} (h : hexValue? c = some x) :
    hexToInt c = UInt8.ofNat x ∧ x < 16 := by
  have hall : ∀ n < 256, (hexValue? (UInt8.ofNat n)).all
      (fun x => hexToInt (UInt8.ofNat n) = UInt8.ofNat x && decide (x < 16)) = true := by
    decide +kernel
  have hc := hall c.toNat c.toNat_lt
  rw [UInt8.ofNat_toNat,h] at hc
  simpa using hc

theorem hexToInt_hexPair {a b v : UInt8} (h : hexPair? a b = some v) :
    (hexToInt a <<< 4) ||| hexToInt b = v := by
  have hall : ∀ x < 16, ∀ y < 16,
      (UInt8.ofNat x <<< 4) ||| UInt8.ofNat y = UInt8.ofNat (16*x+y) := by decide +kernel
  unfold hexPair? at h
  simp only [Option.bind_eq_bind,Option.bind_eq_some_iff,pure,Option.some.injEq] at h
  obtain ⟨x,hx,y,hy,rfl⟩ := h
  obtain ⟨hax,hx16⟩ := hexToInt_eq hx
  obtain ⟨hby,hy16⟩ := hexToInt_eq hy
  rw [hax,hby]
  exact hall x hx16 y hy16

/-- A raw byte of a query that stands for itself. -/
def PlainToken : Token → Prop
  | .raw c _ => endsValue c = false ∧ c ≠ 0x2b
  | .esc .. => True

/-- A value is decoded as far as the buffer goes. -/
theorem decodeInto_render {ts : List Token} (hts : ∀ t ∈ ts, PlainToken t) {e : UInt8}
    (he : endsValue e = true) (rest : Bytes) (room : ℕ) :
    decodeInto room (render ts++e::rest) =
      if ts.length < room then (.success,ts.map Token.value)
      else (.truncated,(ts.map Token.value).take room) := by
  induction ts generalizing room with
  | nil => cases room <;> simp [decodeInto,he]
  | cons t ts ih =>
    have hrest := ih fun u hu => hts u (List.mem_cons_of_mem _ hu)
    cases room with
    | zero => simp [decodeInto]
    | succ room =>
      cases t with
      | raw c hc =>
        have hplain := hts _ List.mem_cons_self
        have hstep : decodeInto (room+1) (render (.raw c hc::ts)++e::rest) =
            ((decodeInto room (render ts++e::rest)).1,c::(decodeInto room (render ts++e::rest)).2) := by
          rw [render_cons,Token.text]
          simp [decodeInto,hplain.1,hc,hplain.2]
        rw [hstep,hrest]
        simp only [List.length_cons,Nat.add_lt_add_iff_right]
        split_ifs <;> rfl
      | esc hi lo hv =>
        obtain ⟨v,hsome⟩ := Option.isSome_iff_exists.mp hv
        have hpercent : endsValue 0x25 = false := by decide
        have hvalue : Token.value (.esc hi lo hv) = v := by simp [Token.value,hsome]
        have hstep : decodeInto (room+1) (render (.esc hi lo hv::ts)++e::rest) =
            ((decodeInto room (render ts++e::rest)).1,v::(decodeInto room (render ts++e::rest)).2) := by
          rw [render_cons,Token.text]
          simp [decodeInto,hpercent,hexToInt_hexPair hsome]
        rw [hstep,hrest]
        simp only [List.length_cons,Nat.add_lt_add_iff_right,List.map_cons,hvalue]
        split_ifs <;> rfl

end Decoding

section Endpoints

/-- An endpoint of the API. -/
structure ApiEndpoint (desc : HandlerDesc) : Prop where
  mem : desc ∈ sHandlers
  whole : desc.needPartialMatch = false

variable {desc : HandlerDesc}

theorem ApiEndpoint.found (h : ApiEndpoint desc) (wanted : Method) :
    findHandler wanted desc.path = some desc := by
  have hall : ∀ desc ∈ sHandlers, desc.needPartialMatch = false →
      findHandler .get desc.path = some desc ∧ findHandler .post desc.path = some desc := by
    decide +kernel
  cases wanted
  · exact (hall desc h.mem h.whole).1
  · exact (hall desc h.mem h.whole).2

/-- The bytes of its path. -/
def isPathByte (c : UInt8) : Bool :=
  !isspace c && c ≠ 0 && c ≠ 0x25 && !endsValue c && c ≠ 0x2b

theorem ApiEndpoint.path (h : ApiEndpoint desc) :
    desc.path ≠ [] ∧ desc.path.length < 511 ∧ ∀ c ∈ desc.path, isPathByte c = true := by
  have hall : ∀ desc ∈ sHandlers, desc.path ≠ [] ∧ desc.path.length < 511 ∧
      desc.path.all isPathByte = true := by decide +kernel
  obtain ⟨hne,hlen,hbytes⟩ := hall desc h.mem
  exact ⟨hne,hlen,List.all_eq_true.mp hbytes⟩

theorem ApiEndpoint.isWord (h : ApiEndpoint desc) : IsWord desc.path := by
  obtain ⟨hne,_,hbytes⟩ := h.path
  refine ⟨hne,fun c hc => ?_,fun hmem => absurd (hbytes 0 hmem) (by decide)⟩
  have hbyte := hbytes c hc
  simp only [isPathByte,Bool.and_eq_true,Bool.not_eq_true'] at hbyte
  exact hbyte.1.1.1.1

/-- The path ends where its query or the first line goes on. -/
theorem ApiEndpoint.decoded (h : ApiEndpoint desc) {e : UInt8} (he : endsValue e = true)
    (rest : Bytes) : cstr (urlDecode (desc.path++e::rest) 512).2 = desc.path := by
  obtain ⟨_,hlen,hbytes⟩ := h.path
  have hpercent : ∀ c ∈ desc.path, true = true ∧ c ≠ 0x25 := by
    rintro c hc
    refine ⟨rfl,?_⟩
    rintro rfl
    exact absurd (hbytes _ hc) (by decide)
  have htext : render (desc.path.map (UrlComponents.encodeToken fun _ => true)) = desc.path := by
    have hencode := UrlComponents.encode_append_of_kept hpercent []
    rw [List.append_nil] at hencode
    exact hencode.trans (List.append_nil _)
  have hplain : ∀ t ∈ desc.path.map (UrlComponents.encodeToken fun _ => true), PlainToken t := by
    intro t ht
    obtain ⟨c,hc,rfl⟩ := List.mem_map.mp ht
    have hbyte := hbytes c hc
    simp only [isPathByte,Bool.and_eq_true,Bool.not_eq_true',decide_eq_true_eq] at hbyte
    unfold UrlComponents.encodeToken
    rw [dif_pos (hpercent c hc)]
    exact ⟨hbyte.1.2,hbyte.2⟩
  have hdecoded := decodeInto_render hplain he rest 511
  rw [htext,if_pos (by simpa using hlen)] at hdecoded
  rw [urlDecode,hdecoded]
  simp only [List.map_map,Function.comp_def,UrlComponents.encodeToken_value,List.map_id']
  exact cstr_eq_self fun c hc h0 => absurd (hbytes c hc) (by rw [h0]; decide)

end Endpoints

section Post

/-- What is free in the head of a POST request: the version and the other lines, the case of
the name of the length, and the blanks in front of it. -/
structure PostHead where
  version : Bytes
  before : List Bytes
  name : Bytes
  blanks : Bytes
  after : List Bytes
  isVersion : IsWord version ∧ version.take 4 = bytes "HTTP"
  beforeLines : ∀ line ∈ before, IsLine line ∧ ¬ Names (bytes "Content-Length") line
  afterLines : ∀ line ∈ after, IsLine line
  isName : sameNoCase name (bytes "Content-Length") = true
  isBlank : ∀ c ∈ blanks, c = 0x20 ∨ c = 0x09

def PostHead.lengthLine (head : PostHead) (length : ℕ) : Bytes :=
  head.name++0x3a::(head.blanks++Decimal.text length)

def PostHead.lines (head : PostHead) (path : Bytes) (length : ℕ) : List Bytes :=
  (requestText (bytes "POST") path head.version::head.before)++head.lengthLine length::head.after

def PostHead.text (head : PostHead) (path : Bytes) (length : ℕ) : Bytes :=
  headText (head.lines path length)

/-- What the length of a body is read as. -/
def announced (wide : ℕ → UInt32) (n : ℕ) : ℕ :=
  (if n < 2^32 then UInt32.ofNat n else wide n).toNat

theorem announced_eq (wide : ℕ → UInt32) {n : ℕ} (hn : n < 2^32) : announced wide n = n := by
  rw [announced,if_pos hn]
  exact Nat.mod_eq_of_lt hn

theorem announced_lt (wide : ℕ → UInt32) (n : ℕ) : announced wide n < 2^32 :=
  UInt32.toNat_lt _

variable {desc : HandlerDesc} {wide : ℕ → UInt32} (head : PostHead) (length : ℕ)

theorem isWord_post : IsWord (bytes "POST") :=
  ⟨by decide,by decide +kernel,by decide⟩

theorem PostHead.name_length : head.name.length = (bytes "Content-Length").length := by
  have hname := head.isName
  simp only [sameNoCase,decide_eq_true_eq] at hname
  have hlen := congrArg List.length hname
  simpa using hlen

theorem PostHead.name_bytes {c : UInt8} (hc : c ∈ head.name) : c ≠ 0 ∧ c ≠ 0x0d := by
  have hname := head.isName
  simp only [sameNoCase,decide_eq_true_eq] at hname
  have hmem : toLower c ∈ (bytes "Content-Length").map toLower := hname ▸ List.mem_map_of_mem hc
  constructor
  · rintro rfl
    exact absurd hmem (by decide)
  · rintro rfl
    exact absurd hmem (by decide)

theorem PostHead.isLine_lengthLine : IsLine (head.lengthLine length) := by
  have hbytes : ∀ c ∈ head.lengthLine length, c ≠ 0 ∧ c ≠ 0x0d := by
    intro c hc
    simp only [lengthLine,List.mem_append,List.mem_cons] at hc
    rcases hc with hc | rfl | hc | hc
    · exact head.name_bytes hc
    · decide
    · rcases head.isBlank c hc with rfl | rfl <;> decide
    · have hdigit := Decimal.text_isdigit length c hc
      constructor <;> rintro rfl <;> exact absurd hdigit (by decide)
  exact ⟨by simp [lengthLine],fun h => (hbytes 0 h).1 rfl,fun h => (hbytes _ h).2 rfl⟩

theorem PostHead.names_lengthLine : Names (bytes "Content-Length") (head.lengthLine length) := by
  rw [Names,lengthLine,← head.name_length,List.take_left,List.drop_left]
  exact ⟨head.isName,rfl⟩

theorem not_names_requestText {method target version : Bytes} (hmethod : method.length < 14) :
    ¬ Names (bytes "Content-Length") (requestText method target version) := by
  rintro ⟨hsame,_⟩
  have hmem : (0x20 : UInt8) ∈ (requestText method target version).take 14 := by
    obtain ⟨k,hk⟩ : ∃ k, 14-method.length = k+1 := ⟨14-method.length-1,by omega⟩
    rw [requestText,List.take_append,hk,List.take_succ_cons]
    simp
  simp only [sameNoCase,decide_eq_true_eq] at hsame
  have hlower : toLower 0x20 ∈ (bytes "Content-Length").map toLower :=
    hsame ▸ List.mem_map_of_mem hmem
  exact absurd hlower (by decide)

theorem PostHead.isLine (hdesc : ApiEndpoint desc) :
    ∀ line ∈ head.lines desc.path length, IsLine line := by
  intro line hline
  simp only [lines,List.mem_append,List.mem_cons] at hline
  rcases hline with (rfl | h) | rfl | h
  · exact isLine_requestText isWord_post hdesc.isWord head.isVersion.1
  · exact (head.beforeLines line h).1
  · exact head.isLine_lengthLine length
  · exact head.afterLines line h

/-- The length is found in the head, and read into 32 bits. -/
theorem PostHead.reception (hdesc : ApiEndpoint desc) :
    Reception.recv wide (.receiving .start) (head.text desc.path length) =
      checkComplete ⟨true,head.text desc.path length,
        (head.text desc.path length).length+announced wide length,
        (head.text desc.path length).length⟩ := by
  have hbefore : ∀ line ∈ requestText (bytes "POST") desc.path head.version::head.before,
      IsLine line ∧ ¬ Names (bytes "Content-Length") line := by
    intro line hline
    rcases List.mem_cons.mp hline with rfl | hline
    · exact ⟨isLine_requestText isWord_post hdesc.isWord head.isVersion.1,
        not_names_requestText (by decide)⟩
    · exact head.beforeLines line hline
  have hfuel : (requestText (bytes "POST") desc.path head.version::head.before).length <
      (headText (head.lines desc.path length)).length+1 := by
    have hle := length_le_headText (head.lines desc.path length)
    simp only [lines,List.length_append,List.length_cons] at hle ⊢
    omega
  have hfound := findHeaderValue_headText (by decide) head.after
    (fun line hline => (hbefore line hline).1) (fun line hline => (hbefore line hline).2) (head.isLine_lengthLine length)
    (head.names_lengthLine length) hfuel
  have hvalue : ((head.lengthLine length++crlf++headText head.after).drop
      ((bytes "Content-Length").length+1)).dropWhile (fun c => c = 0x20 ∨ c = 0x09) =
      Decimal.text length++(crlf++headText head.after) := by
    obtain ⟨c,ds,hcons,hc,_⟩ := Decimal.text_cons length
    have hdrop : (head.lengthLine length++crlf++headText head.after).drop
        ((bytes "Content-Length").length+1) =
        head.blanks++(Decimal.text length++(crlf++headText head.after)) := by
      rw [lengthLine,← head.name_length,List.append_assoc,List.append_assoc,← List.drop_drop,
        List.drop_left]
      simp
    rw [hdrop,List.dropWhile_append_of_pos fun c hc => by simpa using head.isBlank c hc,hcons]
    have h1 : c ≠ 0x20 := Decimal.head_ne_of_isdigit hc (by decide)
    have h2 : c ≠ 0x09 := Decimal.head_ne_of_isdigit hc (by decide)
    simp [h1,h2]
  change findHeaderValue _ _ (headText (head.lines desc.path length)) = _ at hfound
  rw [text,recv_headText (by simp [lines]) (head.isLine length hdesc),hfound,hvalue,
    headReception,strToUint_text]
  rfl

/-- The request, once the announced part of the body is there. -/
def postRequest (head : Bytes) (path body : Bytes) (n : ℕ) : ReceivedRequest :=
  ⟨bytes "POST",path,head++body.take n,head.length+n,head.length⟩

theorem PostHead.handleRequest (hdesc : ApiEndpoint desc) {body : Bytes} (hbody : (0 : UInt8) ∉ body)
    (expectedRecvLen dataIdx : ℕ) :
    handleRequest ⟨true,head.text desc.path length++body,expectedRecvLen,dataIdx⟩ =
      .request ⟨bytes "POST",desc.path,head.text desc.path length++body,expectedRecvLen,dataIdx⟩ := by
  have hrest : (0 : UInt8) ∉
      headText (head.before++head.lengthLine length::head.after)++body := by
    intro hmem
    rcases List.mem_append.mp hmem with hmem | hmem
    · refine ne_zero_headText (fun line hline => head.isLine length hdesc line ?_) 0 hmem rfl
      exact List.mem_cons_of_mem _ hline
    · exact hbody hmem
  have htext : head.text desc.path length++body =
      requestText (bytes "POST") desc.path head.version++crlf++
        (headText (head.before++head.lengthLine length::head.after)++body) := by
    rw [text,lines,List.cons_append,headText,List.append_assoc]
  rw [htext,handleRequest_head isWord_post (by decide) hdesc.isWord head.isVersion.1
    head.isVersion.2 hrest,hdesc.decoded (by decide)]

/-- What has been received when all of the head and some of the body has arrived. -/
theorem PostHead.received_body (hdesc : ApiEndpoint desc) {body : Bytes}
    (hbody : (0 : UInt8) ∉ body) :
    Reception.recv wide (.receiving .start) (head.text desc.path length++body) =
      if body.length < announced wide length then
        .receiving ⟨true,head.text desc.path length++body,
          (head.text desc.path length).length+announced wide length,
          (head.text desc.path length).length⟩
      else .request (postRequest (head.text desc.path length) desc.path body
        (announced wide length)) := by
  have hzero : ∀ n, (0 : UInt8) ∉ body.take n := fun n hmem => hbody (List.mem_of_mem_take hmem)
  rw [recv_append,head.reception length hdesc,checkComplete]
  by_cases h0 : announced wide length = 0
  · have hnil := head.handleRequest length hdesc (show (0 : UInt8) ∉ ([] : Bytes) by simp)
    rw [List.append_nil] at hnil
    simp only [h0,Nat.add_zero,if_true,Nat.not_lt_zero,if_false]
    rw [hnil,recv_done (by intro st h; cases h),postRequest,List.take_zero,List.append_nil,Nat.add_zero]
  · rw [if_neg (by simpa using h0),recv_body rfl (by simp only; omega)]
    simp only [Nat.add_lt_add_iff_left,Nat.add_sub_cancel_left]
    split_ifs
    · rfl
    · exact head.handleRequest length hdesc (hzero _) _ _

/-- A handler is given the announced part of the body. -/
theorem dispatch_postRequest (hdesc : ApiEndpoint desc) {body : Bytes} {n : ℕ}
    {text : Bytes} (htext : text ≠ []) :
    dispatch (postRequest text desc.path body n) =
      .call desc.handler (bytes "POST") desc.path (if 0 < n then some (body.take n) else none) := by
  have hoptions : sameNoCase (bytes "POST") (bytes "OPTIONS") = false := by decide
  have hwanted : wantedMethod (bytes "POST") = some .post := by decide
  have hpos : 0 < text.length := List.length_pos_iff.mpr htext
  have hdata : requestData (postRequest text desc.path body n) .post =
      some (if 0 < n then some (body.take n) else none) := by
    by_cases hn : 0 < n
    · simp only [requestData,postRequest,hpos,true_and,Nat.lt_add_right_iff_pos,hn,if_true,
        List.drop_left,Nat.add_sub_cancel_left,List.take_take,min_self]
    · simp only [requestData,postRequest,hpos,true_and,Nat.lt_add_right_iff_pos,hn,if_false]
  rw [dispatch]
  simp only [hoptions,hwanted,postRequest,hdesc.found,Bool.false_eq_true,if_false]
  rw [← postRequest,hdata]

/-- However much of a POST request has arrived, no handler is called with anything but the
whole body, and once all of it has arrived a request is handed on. -/
def DeliversPost (wide : ℕ → UInt32) (desc : HandlerDesc) (p : Bytes) : Prop :=
  ∀ (head : PostHead) (chunks : List Bytes) (rest : Bytes),
    chunks.flatten++rest = head.text desc.path p.length++p →
    (∀ r, received wide chunks = .request r →
      dispatch r = .call desc.handler (bytes "POST") desc.path (some p)) ∧
    (rest = [] → ∃ r, received wide chunks = .request r)

theorem PostHead.text_ne_nil : head.text desc.path length ≠ [] := by
  simp [text,lines,headText,crlf]

theorem deliversPost_of_lt (hdesc : ApiEndpoint desc) {p : Bytes} (hne : p ≠ [])
    (hnul : (0 : UInt8) ∉ p) (hlt : p.length < 2^32) : DeliversPost wide desc p := by
  intro head chunks rest harrived
  rw [received_eq]
  -- either some of the head is missing, or some of the body has arrived
  rcases List.append_eq_append_iff.mp harrived with ⟨missing,hhead,hrest⟩ | ⟨body,hchunks,hbody⟩
  · by_cases hmissing : missing = []
    · rw [hmissing,List.append_nil] at hhead
      have hreceived := @PostHead.received_body desc wide head p.length hdesc [] (by simp)
      have hpos : 0 < p.length := List.length_pos_iff.mpr hne
      rw [List.append_nil,announced_eq wide hlt,if_pos (by simpa using hpos)] at hreceived
      rw [← hhead,hreceived]
      refine ⟨fun r hr => (nomatch hr),fun h => ?_⟩
      rw [hmissing,List.nil_append,h] at hrest
      exact absurd hrest.symm hne
    · rw [recv_head (head.isLine p.length hdesc) hhead.symm hmissing]
      refine ⟨fun r hr => (nomatch hr),fun h => ?_⟩
      rw [h] at hrest
      exact absurd (List.append_eq_nil_iff.mp hrest.symm).1 hmissing
  · have hzero : (0 : UInt8) ∉ body := fun hmem => hnul (hbody ▸ List.mem_append_left _ hmem)
    rw [hchunks,head.received_body p.length hdesc hzero,announced_eq wide hlt]
    have hlen := congrArg List.length hbody
    rw [List.length_append] at hlen
    by_cases hshort : body.length < p.length
    · rw [if_pos hshort]
      refine ⟨fun r hr => (nomatch hr),fun h => ?_⟩
      rw [h,List.length_nil] at hlen
      omega
    · have hnil : rest = [] := List.length_eq_zero_iff.mp (by omega)
      rw [hnil,List.append_nil] at hbody
      rw [if_neg hshort,← hbody]
      refine ⟨fun r hr => ?_,fun _ => ⟨_,rfl⟩⟩
      injection hr with hr
      rw [← hr,dispatch_postRequest hdesc (head.text_ne_nil _),List.take_length,
        if_pos (List.length_pos_iff.mpr hne)]

end Post

section Get

/-- A letter, a digit or one of `- _ . ~`. -/
def unreserved (c : UInt8) : Bool := Util.isalnum c || (bytes "-_.~").contains c

def UnreservedToken : Token → Prop
  | .raw c _ => unreserved c = true
  | .esc .. => True

/-- What is free in the head of a GET request. -/
structure GetHead where
  version : Bytes
  fields : List Bytes
  isVersion : IsWord version ∧ version.take 4 = bytes "HTTP"
  otherLines : ∀ line ∈ fields, IsLine line ∧ ¬ Names (bytes "Content-Length") line

/-- The path with the payload behind it. -/
def dataTarget (path : Bytes) (ts : List Token) : Bytes := path++0x3f::(bytes "data="++render ts)

def GetHead.lines (head : GetHead) (path : Bytes) (ts : List Token) : List Bytes :=
  requestText (bytes "GET") (dataTarget path ts) head.version::head.fields

def GetHead.text (head : GetHead) (path : Bytes) (ts : List Token) : Bytes :=
  headText (head.lines path ts)

variable {desc : HandlerDesc} {wide : ℕ → UInt32} {ts : List Token} (head : GetHead)

theorem isWord_get : IsWord (bytes "GET") :=
  ⟨by decide,by decide +kernel,by decide⟩

theorem unreserved_cases {c : UInt8} (h : unreserved c = true) :
    endsValue c = false ∧ c ≠ 0x2b ∧ isspace c = false ∧ c ≠ 0 := by
  have hall : ∀ n < 256, unreserved (UInt8.ofNat n) = true → endsValue (UInt8.ofNat n) = false ∧
      UInt8.ofNat n ≠ 0x2b ∧ isspace (UInt8.ofNat n) = false ∧ UInt8.ofNat n ≠ 0 := by
    decide +kernel
  have hc := hall c.toNat c.toNat_lt
  rw [UInt8.ofNat_toNat] at hc
  exact hc h

theorem hexValue_cases {c : UInt8} (h : (hexValue? c).isSome) : isspace c = false ∧ c ≠ 0 := by
  have hall : ∀ n < 256, (hexValue? (UInt8.ofNat n)).isSome → isspace (UInt8.ofNat n) = false ∧
      UInt8.ofNat n ≠ 0 := by decide +kernel
  have hc := hall c.toNat c.toNat_lt
  rw [UInt8.ofNat_toNat] at hc
  exact hc h

theorem render_bytes (hts : ∀ t ∈ ts, UnreservedToken t) {c : UInt8} (hc : c ∈ render ts) :
    isspace c = false ∧ c ≠ 0 := by
  obtain ⟨t,ht,hct⟩ := List.mem_flatMap.mp hc
  cases t with
  | raw d hd =>
    rw [Token.text,List.mem_singleton] at hct
    exact hct ▸ (unreserved_cases (hts _ ht)).2.2
  | esc hi lo hv =>
    obtain ⟨v,hsome⟩ := Option.isSome_iff_exists.mp hv
    obtain ⟨hhi,hlo⟩ := hexPair?_digits hsome
    simp only [Token.text,List.mem_cons,List.not_mem_nil,or_false] at hct
    rcases hct with rfl | rfl | rfl
    · decide
    · exact hexValue_cases hhi
    · exact hexValue_cases hlo

theorem isWord_dataTarget (hdesc : ApiEndpoint desc) (hts : ∀ t ∈ ts, UnreservedToken t) :
    IsWord (dataTarget desc.path ts) := by
  have hbytes : ∀ c ∈ dataTarget desc.path ts, isspace c = false ∧ c ≠ 0 := by
    intro c hc
    simp only [dataTarget,List.mem_append,List.mem_cons] at hc
    rcases hc with hc | rfl | hc | hc
    · exact ⟨hdesc.isWord.space c hc,fun h => hdesc.isWord.nul (h ▸ hc)⟩
    · decide
    · exact (by decide +kernel : ∀ c ∈ bytes "data=", isspace c = false ∧ c ≠ 0) c hc
    · exact render_bytes hts hc
  exact ⟨by simp [dataTarget],fun c hc => (hbytes c hc).1,fun h => (hbytes 0 h).2 rfl⟩

theorem GetHead.isLine (hdesc : ApiEndpoint desc) (hts : ∀ t ∈ ts, UnreservedToken t) :
    ∀ line ∈ head.lines desc.path ts, IsLine line := by
  intro line hline
  rcases List.mem_cons.mp hline with rfl | hline
  · exact isLine_requestText isWord_get (isWord_dataTarget hdesc hts) head.isVersion.1
  · exact (head.otherLines line hline).1

/-- A request without a length is handed on when its head is complete. -/
theorem GetHead.received_text (hdesc : ApiEndpoint desc) (hts : ∀ t ∈ ts, UnreservedToken t) :
    Reception.recv wide (.receiving .start) (head.text desc.path ts) =
      .request ⟨bytes "GET",desc.path,head.text desc.path ts,0,0⟩ := by
  have hnames : ∀ line ∈ head.lines desc.path ts, ¬ Names (bytes "Content-Length") line := by
    intro line hline
    rcases List.mem_cons.mp hline with rfl | hline
    · exact not_names_requestText (by decide)
    · exact (head.otherLines line hline).2
  have hnone := findHeaderValue_headText_none (by decide) (head.isLine hdesc hts) hnames
    (Nat.lt_succ_of_le (length_le_headText (head.lines desc.path ts)))
  have hzero : (0 : UInt8) ∉ headText head.fields :=
    fun hmem => ne_zero_headText (fun line hline => (head.otherLines line hline).1) 0 hmem rfl
  rw [text,recv_headText (show head.lines desc.path ts ≠ [] from List.cons_ne_nil _ _)
    (head.isLine hdesc hts),hnone,headReception]
  have hpath : dataTarget desc.path ts++0x20::(head.version++(crlf++headText head.fields)) =
      desc.path++0x3f::(bytes "data="++render ts++
        0x20::(head.version++(crlf++headText head.fields))) := by
    simp [dataTarget]
  rw [lines,headText,handleRequest_head isWord_get (by decide) (isWord_dataTarget hdesc hts)
    head.isVersion.1 head.isVersion.2 hzero,hpath,hdesc.decoded (by decide)]

/-- The variable is found behind the path, and decoded as far as the buffer goes. -/
theorem GetHead.sbGetVar (hdesc : ApiEndpoint desc) (hts : ∀ t ∈ ts, UnreservedToken t) :
    sbGetVar ⟨bytes "GET",desc.path,head.text desc.path ts,0,0⟩ (bytes "data") queryDataSize =
      if ts.length < 2047 then (.success,ts.map Token.value)
      else (.truncated,(ts.map Token.value).take 2047) := by
  obtain ⟨rest,hrest⟩ : ∃ rest, rest = head.version++(crlf++headText head.fields) := ⟨_,rfl⟩
  have hcstr : cstr (head.text desc.path ts) = head.text desc.path ts :=
    cstr_eq_self (ne_zero_headText (head.isLine hdesc hts))
  have htext : head.text desc.path ts = (bytes "GET"++0x20::desc.path)++
      0x3f::(bytes "data="++(render ts++0x20::rest)) := by
    rw [text,lines,headText,requestText,dataTarget,hrest]
    simp
  have hpath : ∀ c ∈ bytes "GET"++0x20::desc.path, c ≠ 0x3f ∧ c ≠ 0x0d := by
    intro c hc
    simp only [List.mem_append,List.mem_cons] at hc
    rcases hc with hc | rfl | hc
    · exact (by decide +kernel : ∀ c ∈ bytes "GET", c ≠ 0x3f ∧ c ≠ 0x0d) c hc
    · decide
    · have hbyte := hdesc.path.2.2 c hc
      constructor <;> rintro rfl <;> exact absurd hbyte (by decide)
  have hquery : (head.text desc.path ts).dropWhile (fun c => c ≠ 0x3f ∧ c ≠ 0x0d) =
      0x3f::(bytes "data="++(render ts++0x20::rest)) := by
    rw [htext,List.dropWhile_append_of_pos fun c hc => by simpa using hpath c hc]
    rfl
  have hfind : ∀ fuel, findVarValue (bytes "data") (fuel+1) (bytes "data="++(render ts++0x20::rest)) =
      some (render ts++0x20::rest) := by
    intro fuel
    rfl
  have hplain : ∀ t ∈ ts, PlainToken t := by
    intro t ht
    cases t with
    | raw c hc => exact ⟨(unreserved_cases (hts _ ht)).1,(unreserved_cases (hts _ ht)).2.1⟩
    | esc hi lo hv => trivial
  simp only [ReceivedRequests.sbGetVar,hcstr,hquery,hfind,Option.some_or]
  exact decodeInto_render hplain (by decide) rest 2047

/-- The request is answered with an error, and no handler is called. -/
structure TooLong (r : ReceivedRequest) : Prop where
  dispatched : dispatch r = .queryDataTooLong
  answered : ∀ calls stream sv host, eventHandler calls stream sv host r =
    pure (streamCalls (kickError calls.text 400 (bytes "Bad request") (bytes "Query data too long")))

/-- However much of a GET request has arrived, no handler is called with anything but the
whole payload, and if that does not fit the buffer the client is told so. -/
def DeliversGet (wide : ℕ → UInt32) (desc : HandlerDesc) (p : Bytes) : Prop :=
  ∀ (head : GetHead) (ts : List Token), (∀ t ∈ ts, UnreservedToken t) → ts.map Token.value = p →
    ∀ (chunks : List Bytes) (rest : Bytes), chunks.flatten++rest = head.text desc.path ts →
      (∀ r, received wide chunks = .request r →
        if p.length ≤ 2046 then
          dispatch r = .call desc.handler (bytes "GET") desc.path (some p)
        else TooLong r) ∧
      (rest = [] → ∃ r, received wide chunks = .request r)

theorem GetHead.dispatch (hdesc : ApiEndpoint desc) (hts : ∀ t ∈ ts, UnreservedToken t)
    (hnul : (0 : UInt8) ∉ ts.map Token.value) :
    dispatch ⟨bytes "GET",desc.path,head.text desc.path ts,0,0⟩ =
      if ts.length ≤ 2046 then
        .call desc.handler (bytes "GET") desc.path (some (ts.map Token.value))
      else .queryDataTooLong := by
  have hoptions : sameNoCase (bytes "GET") (bytes "OPTIONS") = false := by decide
  have hwanted : wantedMethod (bytes "GET") = some .get := by decide
  have hcstr : cstr (ts.map Token.value) = ts.map Token.value :=
    cstr_eq_self fun c hc h0 => hnul (h0 ▸ hc)
  have hdata : requestData ⟨bytes "GET",desc.path,head.text desc.path ts,0,0⟩ .get =
      if ts.length ≤ 2046 then some (some (ts.map Token.value)) else none := by
    rw [requestData,head.sbGetVar hdesc hts]
    by_cases hle : ts.length ≤ 2046
    · rw [if_pos (by omega),if_pos hle]
      simp only [hcstr]
    · rw [if_neg (by omega),if_neg hle]
  rw [EventHandler.dispatch]
  simp only [hdata,hoptions,hwanted,hdesc.found,Bool.false_eq_true,if_false]
  split_ifs <;> rfl

theorem deliversGet (hdesc : ApiEndpoint desc) {p : Bytes} (hnul : (0 : UInt8) ∉ p) :
    DeliversGet wide desc p := by
  rintro head ts hts rfl chunks rest harrived
  rw [received_eq]
  by_cases hrest : rest = []
  · rw [hrest,List.append_nil] at harrived
    rw [harrived,head.received_text hdesc hts]
    refine ⟨fun r hr => ?_,fun _ => ⟨_,rfl⟩⟩
    injection hr with hr
    subst hr
    have hdispatch := head.dispatch hdesc hts hnul
    rw [List.length_map]
    split_ifs with hle
    · rw [hdispatch,if_pos hle]
    · rw [if_neg hle] at hdispatch
      refine ⟨hdispatch,fun calls stream sv host => ?_⟩
      rw [eventHandler,hdispatch]
  · rw [recv_head (head.isLine hdesc hts) harrived hrest]
    exact ⟨fun r hr => (nomatch hr),fun h => absurd h hrest⟩

end Get

section Deliveries

variable {wide : ℕ → UInt32}

/-- A request for `/api/install` whose head has nothing but the length. -/
def plainHead : PostHead where
  version := bytes "HTTP/1.1"
  before := []
  name := bytes "Content-Length"
  blanks := [0x20]
  after := []
  isVersion := ⟨⟨by decide,by decide +kernel,by decide⟩,by decide⟩
  beforeLines := by simp
  afterLines := by simp
  isName := by decide
  isBlank := by simp

def installDesc : HandlerDesc := ⟨bytes "/api/install",.handleApiInstall,[.get,.post],false⟩

theorem apiEndpoint_install : ApiEndpoint installDesc := ⟨by decide,rfl⟩

/-- A body with a length of more than 32 bits is cut off. -/
theorem received_plain (wide : ℕ → UInt32) {p : Bytes} (hnul : (0 : UInt8) ∉ p) (hlong : 2^32 ≤ p.length) :
    received wide [plainHead.text installDesc.path p.length++p] =
      .request (postRequest (plainHead.text installDesc.path p.length) installDesc.path p
        (announced wide p.length)) := by
  have hlt := announced_lt wide p.length
  rw [received_eq]
  simp only [List.flatten_cons,List.flatten_nil,List.append_nil]
  rw [plainHead.received_body p.length apiEndpoint_install hnul,if_neg (by omega)]

/-- Both deliveries give every endpoint exactly the payload, or an answer that the query is
too long, if and only if the length of the payload fits the 32 bits that it is read into. -/
theorem delivers_iff (wide : ℕ → UInt32) {p : Bytes} (hne : p ≠ []) (hnul : (0 : UInt8) ∉ p) :
    (∀ desc, ApiEndpoint desc → DeliversPost wide desc p ∧ DeliversGet wide desc p) ↔
      p.length < 2^32 := by
  constructor
  · intro h
    by_contra hlong
    have hlt := announced_lt wide p.length
    have hreceived := received_plain wide hnul (not_lt.mp hlong)
    have hdelivered := ((h installDesc apiEndpoint_install).1 plainHead
      [plainHead.text installDesc.path p.length++p] [] (by simp)).1 _ hreceived
    rw [dispatch_postRequest apiEndpoint_install (plainHead.text_ne_nil _)] at hdelivered
    injection hdelivered with _ _ _ hdata
    split_ifs at hdata
    injection hdata with hdata
    have hlen := congrArg List.length hdata
    rw [List.length_take] at hlen
    omega
  · exact fun hlt desc hdesc => ⟨deliversPost_of_lt hdesc hne hnul hlt,deliversGet hdesc hnul⟩

theorem delivers_iff_example :
    (bytes "\x7b\x7d").length < 2^32 ∧
      ∀ desc, ApiEndpoint desc → DeliversPost UInt32.ofNat desc (bytes "\x7b\x7d") ∧
        DeliversGet UInt32.ofNat desc (bytes "\x7b\x7d") :=
  ⟨by decide,(delivers_iff UInt32.ofNat (by decide) (by decide)).mpr (by decide)⟩

/-- One byte more than 32 bits can count. -/
def longBody : Bytes := List.replicate (2^32+1) 0x41

/-- Where `%u` wraps, the handler is called with the first byte of the body. -/
theorem longBody_cut : ∃ r,
    received UInt32.ofNat [plainHead.text installDesc.path longBody.length++longBody] = .request r ∧
      dispatch r = .call .handleApiInstall (bytes "POST") (bytes "/api/install") (some [0x41]) ∧
      some [0x41] ≠ some longBody := by
  have hlen : longBody.length = 2^32+1 := List.length_replicate
  have hnul : (0 : UInt8) ∉ longBody := fun hmem => absurd (List.eq_of_mem_replicate hmem) (by decide)
  have hannounced : announced UInt32.ofNat longBody.length = 1 := by
    rw [hlen]
    decide +kernel
  refine ⟨_,received_plain UInt32.ofNat hnul (by rw [hlen]; omega),?_,?_⟩
  · rw [dispatch_postRequest apiEndpoint_install (plainHead.text_ne_nil _),hannounced]
    rfl
  · intro h
    injection h with h
    have hone := congrArg List.length h
    rw [hlen] at hone
    simp at hone

end Deliveries

end Payloads
end RemotePkgInstaller
