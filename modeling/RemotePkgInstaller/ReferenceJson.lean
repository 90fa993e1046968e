import RemotePkgInstaller.InstallFlavours
import RemotePkgInstaller.JsonLayout
import RemotePkgInstaller.TempFiles
import RemotePkgInstaller.UrlEncoding
import Mathlib.Data.List.Forall2

/-! A reference json is read back: `pkg_extract_piece_urls_from_ref_pkg_json` finds the piece
URLs in what `pkg_setup_prerequisites` has printed.  The printer escapes nothing, which is
enough for URLs that have been encoded; the reader takes five nodes for the object and
five more for every piece. -/
namespace RemotePkgInstaller
namespace ReferenceJson

open HttpText InstallFlavours InstallHandlers InstallUrl JsonText PercentCoding PieceUrls PkgSetup
  Programs Program PublishedFiles ServerCalls TinyJson UrlComponents UrlEncoding Util

section Texts

/-- The properties of a reference json, up to the elements of its array. -/
def headProperties (originalFileSize numberOfSplitFiles : ℕ) (packageDigest rest : Bytes) : Bytes :=
  numberProperty (bytes "originalFileSize") originalFileSize
    (textProperty (bytes "packageDigest") packageDigest
      (0x2c::numberProperty (bytes "numberOfSplitFiles") numberOfSplitFiles
        (arrayProperty (bytes "pieces") rest)))

theorem text_head (originalFileSize numberOfSplitFiles : ℕ) (packageDigest rest : Bytes) :
    (JsonPrint.head originalFileSize packageDigest numberOfSplitFiles).text++rest =
      0x7b::headProperties originalFileSize numberOfSplitFiles packageDigest rest := by
  have h1 : bytes "\x7b\"originalFileSize\":" =
      0x7b::0x22::(bytes "originalFileSize"++[0x22,0x3a]) := by decide
  have h2 : bytes ",\"packageDigest\":\"" =
      0x2c::0x22::(bytes "packageDigest"++[0x22,0x3a,0x22]) := by decide
  have h3 : bytes "\",\"numberOfSplitFiles\":" =
      0x22::0x2c::0x22::(bytes "numberOfSplitFiles"++[0x22,0x3a]) := by decide
  have h4 : bytes ",\"pieces\":[" = 0x2c::0x22::(bytes "pieces"++[0x22,0x3a,0x5b]) := by decide
  simp only [JsonPrint.text,h1,h2,h3,h4,headProperties,numberProperty,textProperty,
    arrayProperty,List.append_assoc,List.cons_append,List.nil_append]

/-- The properties of a piece, behind its opening brace. -/
def pieceProperties (url hashValue rest : Bytes) (fileOffset fileSize : ℕ) : Bytes :=
  textProperty (bytes "url") url
    (0x2c::numberProperty (bytes "fileOffset") fileOffset
      (numberProperty (bytes "fileSize") fileSize
        (textProperty (bytes "hashValue") hashValue (0x7d::rest))))

theorem text_piece (url hashValue rest : Bytes) (fileOffset fileSize : ℕ) :
    (JsonPrint.piece url fileOffset fileSize hashValue).text++rest =
      0x7b::pieceProperties url hashValue rest fileOffset fileSize := by
  have h1 : bytes "\x7b\"url\":\"" = 0x7b::0x22::(bytes "url"++[0x22,0x3a,0x22]) := by decide
  have h2 : bytes "\",\"fileOffset\":" =
      0x22::0x2c::0x22::(bytes "fileOffset"++[0x22,0x3a]) := by decide
  have h3 : bytes ",\"fileSize\":" = 0x2c::0x22::(bytes "fileSize"++[0x22,0x3a]) := by decide
  have h4 : bytes ",\"hashValue\":\"" =
      0x2c::0x22::(bytes "hashValue"++[0x22,0x3a,0x22]) := by decide
  have h5 : bytes "\"\x7d" = [0x22,0x7d] := by decide
  simp only [JsonPrint.text,h1,h2,h3,h4,h5,pieceProperties,numberProperty,textProperty,
    List.append_assoc,List.cons_append,List.nil_append]

end Texts

section Parsing

variable {qty : ℕ}

theorem plainText_of_all {s : Bytes}
    (h : s.all (fun c => isTextByte c && escapeByte c == [c]) = true) : PlainText s := by
  intro c hc
  simpa using List.all_eq_true.mp h c hc

/-- The nodes of the properties of a piece, as the reader leaves them. -/
def pieceLeaves (url hashValue rest : Bytes) (fileOffset fileSize : ℕ) : List Subtree :=
  let hash := textProperty (bytes "hashValue") hashValue (0x7d::rest)
  let size := numberProperty (bytes "fileSize") fileSize hash
  [leaf ⟨none,some (bytes "url"),
      .value (url++0x22::0x2c::numberProperty (bytes "fileOffset") fileOffset size) url,.text⟩,
    leaf ⟨none,some (bytes "fileOffset"),
      .value (Decimal.text fileOffset++0x2c::size) (Decimal.text fileOffset),.integer⟩,
    leaf ⟨none,some (bytes "fileSize"),
      .value (Decimal.text fileSize++0x2c::hash) (Decimal.text fileSize),.integer⟩,
    leaf ⟨none,some (bytes "hashValue"),.value (hashValue++0x22::0x7d::rest) hashValue,.text⟩]

/-- The object of a piece, while it is being read. -/
def pieceObject (parent : ℕ) : Node := ⟨some parent,none,.container none none,.obj⟩

theorem family_get (front : List Node) (node : Node) (ts : List Subtree) :
    (front++family front.length node ts)[front.length]? = some (withLinks front.length node ts) := by
  simp [family]

theorem length_front_family (front : List Node) (node : Node) (ts : List Subtree) :
    (front++family front.length node ts).length = front.length+extent ts+1 := by
  rw [List.length_append,length_family,Nat.add_assoc]

/-- The properties of a piece, up to its closing brace. -/
theorem leads_properties {front : List Node} {parent : ℕ} {url hashValue : Bytes}
    {fileOffset fileSize : ℕ} (hurl : PlainText url) (hhash : PlainText hashValue)
    (hoffset : fileOffset < 2^63) (hsize : fileSize < 2^63) (hroom : front.length+5 ≤ qty)
    (rest : Bytes) :
    Leads qty
      ⟨pieceProperties url hashValue rest fileOffset fileSize,front.length,
        front++family front.length (pieceObject parent) []⟩
      ⟨0x7d::rest,front.length,front++family front.length (pieceObject parent)
        (pieceLeaves url hashValue rest fileOffset fileSize)⟩ := by
  have hplain : ∀ name ∈ [bytes "url",bytes "fileOffset",bytes "fileSize",bytes "hashValue"],
      PlainText name := by
    intro name hname
    refine plainText_of_all ?_
    simp only [List.mem_cons,List.not_mem_nil,or_false] at hname
    rcases hname with rfl | rfl | rfl | rfl <;> decide
  have hspace : ∀ ts : List Subtree, extent ts ≤ 3 →
      (front++family front.length (pieceObject parent) ts).length < qty := by
    intro ts hts
    rw [length_front_family]
    omega
  refine .head (objStep_textProperty (hplain _ (by simp)) hurl _ (family_get _ _ _) rfl
    (hspace _ (by decide))) ?_
  rw [add_leaf rfl]
  refine .head (objStep_comma (goBlank_cons (by decide) _) (family_get _ _ _)) ?_
  refine .head (objStep_numberProperty (hplain _ (by simp)) hoffset _ (family_get _ _ _) rfl
    (hspace _ (by simp [Subtree.size,leaf]))) ?_
  rw [add_leaf rfl]
  refine .head (objStep_numberProperty (hplain _ (by simp)) hsize _ (family_get _ _ _) rfl
    (hspace _ (by simp [Subtree.size,leaf]))) ?_
  rw [add_leaf rfl]
  refine .head (objStep_textProperty (hplain _ (by simp)) hhash _ (family_get _ _ _) rfl
    (hspace _ (by simp [Subtree.size,leaf]))) ?_
  rw [add_leaf rfl]
  exact .refl _

/-- The piece at index `i` has this URL. -/
def HoldsUrl (i : ℕ) (t : Subtree) (url : Bytes) : Prop :=
  ∃ parent hashValue rest fileOffset fileSize,
    t = closed i (pieceObject parent) (pieceLeaves url hashValue rest fileOffset fileSize)

/-- A piece that is read in an array becomes its last element. -/
theorem leads_piece {front : List Node} {array : Node} (harray : array.type = .array)
    {ts : List Subtree} {url hashValue : Bytes} {fileOffset fileSize : ℕ} (hurl : PlainText url)
    (hhash : PlainText hashValue) (hoffset : fileOffset < 2^63) (hsize : fileSize < 2^63)
    (hroom : front.length+1+extent ts+5 ≤ qty) (rest : Bytes) :
    ∃ t, HoldsUrl (front.length+1+extent ts) t url ∧ Leads qty
      ⟨(JsonPrint.piece url fileOffset fileSize hashValue).text++rest,front.length,
        front++family front.length array ts⟩
      ⟨rest,front.length,front++family front.length array (ts++[t])⟩ := by
  refine ⟨_,⟨front.length,hashValue,rest,fileOffset,fileSize,rfl⟩,?_⟩
  obtain ⟨b,hb⟩ : ∃ b, b = front.length+1+extent ts := ⟨_,rfl⟩
  obtain ⟨inner,hinner⟩ : ∃ inner, inner = front++withLinks front.length array
      (ts++[leaf (pieceObject front.length)])::linked (front.length+1) ts := ⟨_,rfl⟩
  have hlen : inner.length = b := by
    rw [hinner,hb,List.length_append,List.length_cons,length_linked]
    omega
  have hadd : add (front++family front.length array ts) front.length (pieceObject front.length) =
      inner++family inner.length (pieceObject front.length) [] := by
    rw [add_family,hinner]
    rfl
  have hlength : (front++family front.length array ts).length = inner.length := by
    rw [length_front_family,hlen,hb]
    omega
  rw [text_piece]
  refine .head (objStep_openElement (goBlank_cons (by decide) _) (family_get _ _ _) harray
    (by rw [hlength]; omega)) ?_
  change Leads qty ⟨_,(front++family front.length array ts).length,
    add (front++family front.length array ts) front.length (pieceObject front.length)⟩ _
  rw [hadd,hlength]
  refine (leads_properties hurl hhash hoffset hsize (by omega) rest).trans ?_
  refine .head (objStep_leave (goBlank_cons (by decide) _) (family_get _ _ _) rfl) ?_
  have hleave := leave_family front b (pieceObject front.length) array
    (pieceLeaves url hashValue rest fileOffset fileSize) ts hb
  rw [← hinner] at hleave
  rw [hlen,hleave,hb]
  exact .refl _

/-- The elements of an array from index `i` on are pieces with these URLs. -/
inductive PieceTrees : ℕ → List Subtree → List Bytes → Prop
  | nil (i : ℕ) : PieceTrees i [] []
  | cons {i : ℕ} {t : Subtree} {ts : List Subtree} {url : Bytes} {urls : List Bytes}
      (h : HoldsUrl i t url) (hrest : PieceTrees (i+t.size) ts urls) :
      PieceTrees i (t::ts) (url::urls)

theorem HoldsUrl.size {i : ℕ} {t : Subtree} {url : Bytes} (h : HoldsUrl i t url) : t.size = 5 := by
  obtain ⟨parent,hashValue,rest,fileOffset,fileSize,rfl⟩ := h
  rfl

/-- The numbers of a print are 63-bit ones. -/
def SmallNumbers : JsonPrint → Prop
  | .head originalFileSize _ _ => originalFileSize < 2^63
  | .piece _ fileOffset fileSize _ => fileOffset < 2^63 ∧ fileSize < 2^63
  | _ => True

instance (print : JsonPrint) : Decidable (SmallNumbers print) := by
  cases print <;> unfold SmallNumbers <;> infer_instance

theorem plainText_bytesToHex (data : Bytes) : PlainText (bytesToHex data) := by
  have hdigits : ∀ n < 16, isTextByte (PkgSetup.hexDigits.getD n 0) = true ∧
      escapeByte (PkgSetup.hexDigits.getD n 0) = [PkgSetup.hexDigits.getD n 0] := by decide
  intro d hd
  obtain ⟨c,_,hcd⟩ := List.mem_flatMap.mp hd
  have hhigh : (c >>> 4).toNat < 16 := by
    have hc := c.toNat_lt
    simp only [UInt8.toNat_shiftRight,Nat.shiftRight_eq_div_pow]
    exact Nat.div_lt_of_lt_mul hc
  have hlow : (c &&& 0xf).toNat < 16 := by
    rw [UInt8.toNat_and]
    exact Nat.lt_succ_of_le Nat.and_le_right
  simp only [List.mem_cons,List.not_mem_nil,or_false] at hcd
  rcases hcd with rfl | rfl
  · exact hdigits _ hhigh
  · exact hdigits _ hlow

/-- All pieces of the array, with the commas between them. -/
theorem leads_pieces {front : List Node} {array : Node} (harray : array.type = .array)
    {pieces : List (Bytes × UInt64)} {offset : UInt64} {ts : List Subtree}
    (hurls : ∀ piece ∈ pieces, PlainText piece.1)
    (hsmall : ∀ print ∈ piecePrints offset pieces, SmallNumbers print)
    (hroom : front.length+1+extent ts+5*pieces.length ≤ qty) (rest : Bytes) :
    ∃ us, PieceTrees (front.length+1+extent ts) us (pieces.map Prod.fst) ∧ Leads qty
      ⟨(piecePrints offset pieces).flatMap JsonPrint.text++rest,front.length,
        front++family front.length array ts⟩
      ⟨rest,front.length,front++family front.length array (ts++us)⟩ := by
  induction pieces generalizing offset ts with
  | nil => exact ⟨[],.nil _,by rw [List.append_nil]; exact .refl _⟩
  | cons piece pieces ih =>
    obtain ⟨url,size⟩ := piece
    rw [List.length_cons] at hroom
    have hnumbers := hsmall (.piece url offset.toNat size.toNat (bytesToHex zeroMiniDigest))
      List.mem_cons_self
    obtain ⟨t,ht,hpiece⟩ := leads_piece harray (hurls (url,size) List.mem_cons_self)
      (plainText_bytesToHex zeroMiniDigest) hnumbers.1 hnumbers.2
      (show front.length+1+extent ts+5 ≤ qty by omega)
      (((if pieces = [] then [] else [JsonPrint.comma])++piecePrints (offset+size) pieces).flatMap
        JsonPrint.text++rest)
    have hextent : extent (ts++[t]) = extent ts+5 := by simp [ht.size]
    obtain ⟨us,hus,hrest⟩ := @ih (offset+size) (ts++[t])
      (fun p hp => hurls p (List.mem_cons_of_mem _ hp))
      (fun print hprint => hsmall print (List.mem_cons_of_mem _ (List.mem_append_right _ hprint)))
      (by rw [hextent]; omega)
    refine ⟨t::us,?_,?_⟩
    · refine .cons ht ?_
      rw [ht.size]
      rw [hextent,← Nat.add_assoc] at hus
      exact hus
    · have hcomma : Leads qty
          ⟨((if pieces = [] then [] else [JsonPrint.comma])++piecePrints (offset+size) pieces).flatMap
            JsonPrint.text++rest,front.length,front++family front.length array (ts++[t])⟩
          ⟨(piecePrints (offset+size) pieces).flatMap JsonPrint.text++rest,front.length,
            front++family front.length array (ts++[t])⟩ := by
        split_ifs
        · exact .refl _
        · exact .head (objStep_comma (goBlank_cons (by decide) _) (family_get _ _ _)) (.refl _)
      have hall := (hpiece.trans hcomma).trans hrest
      rw [List.append_assoc] at hall
      rw [piecePrints,List.flatMap_cons,List.append_assoc]
      exact hall

/-- The array of the pieces. -/
def piecesArray : Node := ⟨some 0,some (bytes "pieces"),.container none none,.array⟩

/-- The nodes of those before the array. -/
def headLeaves (originalFileSize numberOfSplitFiles : ℕ) (packageDigest rest : Bytes) :
    List Subtree :=
  let pieces := arrayProperty (bytes "pieces") rest
  let count := numberProperty (bytes "numberOfSplitFiles") numberOfSplitFiles pieces
  [leaf ⟨none,some (bytes "originalFileSize"),.value (Decimal.text originalFileSize++0x2c::
      textProperty (bytes "packageDigest") packageDigest (0x2c::count))
        (Decimal.text originalFileSize),.integer⟩,
    leaf ⟨none,some (bytes "packageDigest"),.value (packageDigest++0x22::0x2c::count)
      packageDigest,.text⟩,
    leaf ⟨none,some (bytes "numberOfSplitFiles"),
      .value (Decimal.text numberOfSplitFiles++0x2c::pieces) (Decimal.text numberOfSplitFiles),
      .integer⟩]

/-- The nodes of a reference json. -/
def jsonNodes (ts us : List Subtree) : List Node := family 0 rootNode (ts++[closed 4 piecesArray us])

/-- The object up to its array. -/
theorem leads_head {originalFileSize numberOfSplitFiles : ℕ} {packageDigest : Bytes}
    (hsize : originalFileSize < 2^63) (hdigest : PlainText packageDigest)
    (hcount : numberOfSplitFiles < 2^63) (hroom : 5 ≤ qty) (rest : Bytes) :
    let ts := headLeaves originalFileSize numberOfSplitFiles packageDigest rest
    Leads qty ⟨headProperties originalFileSize numberOfSplitFiles packageDigest rest,0,[rootNode]⟩
      ⟨rest,4,(withLinks 0 rootNode (ts++[leaf piecesArray])::linked 1 ts)++
        family 4 piecesArray []⟩ := by
  have hplain : ∀ name ∈ [bytes "originalFileSize",bytes "packageDigest",
      bytes "numberOfSplitFiles",bytes "pieces"], PlainText name := by
    intro name hname
    refine plainText_of_all ?_
    simp only [List.mem_cons,List.not_mem_nil,or_false] at hname
    rcases hname with rfl | rfl | rfl | rfl <;> decide
  have hspace : ∀ ts : List Subtree, extent ts ≤ 3 → (family 0 rootNode ts).length < qty := by
    intro ts hts
    rw [length_family]
    omega
  have hget : ∀ ts : List Subtree, (family 0 rootNode ts)[0]? = some (withLinks 0 rootNode ts) :=
    fun _ => rfl
  have hleaf : ∀ (ts : List Subtree) (property : Node), property.sibling = none →
      add (family 0 rootNode ts) 0 property = family 0 rootNode (ts++[leaf property]) :=
    fun ts property h => @add_leaf [] _ _ h ts
  intro ts
  change Leads qty ⟨_,0,family 0 rootNode []⟩ _
  refine .head (objStep_numberProperty (hplain _ (by simp)) hsize _ (hget _) rfl
    (hspace _ (by decide))) ?_
  rw [hleaf _ _ rfl]
  refine .head (objStep_textProperty (hplain _ (by simp)) hdigest _ (hget _) rfl
    (hspace _ (by simp [Subtree.size,leaf]))) ?_
  rw [hleaf _ _ rfl]
  refine .head (objStep_comma (goBlank_cons (by decide) _) (hget _)) ?_
  refine .head (objStep_numberProperty (hplain _ (by simp)) hcount _ (hget _) rfl
    (hspace _ (by simp [Subtree.size,leaf]))) ?_
  rw [hleaf _ _ rfl]
  refine .head (objStep_arrayProperty (hplain _ (by simp)) _ (hget _) rfl
    (hspace _ (by simp [Subtree.size,leaf]))) ?_
  exact .refl _

/-- The texts of a print are plain. -/
def PlainPrint : JsonPrint → Prop
  | .head _ packageDigest _ => PlainText packageDigest
  | .piece url _ _ hashValue => PlainText url ∧ PlainText hashValue
  | _ => True

theorem ne_zero_of_plainText {s : Bytes} (h : PlainText s) : (0 : UInt8) ∉ s := by
  intro hmem
  exact absurd (h 0 hmem).1 (by decide)

theorem ne_zero_text {print : JsonPrint} (h : PlainPrint print) : (0 : UInt8) ∉ print.text := by
  have hdigits : ∀ n, (0 : UInt8) ∉ Decimal.text n := by
    intro n hmem
    exact absurd (Decimal.text_isdigit n 0 hmem) (by decide)
  cases print with
  | head originalFileSize packageDigest numberOfSplitFiles =>
    simp only [JsonPrint.text,List.mem_append,not_or]
    exact ⟨⟨⟨⟨⟨⟨by decide,hdigits _⟩,by decide⟩,ne_zero_of_plainText h⟩,by decide⟩,hdigits _⟩,
      by decide⟩
  | piece url fileOffset fileSize hashValue =>
    simp only [JsonPrint.text,List.mem_append,not_or]
    exact ⟨⟨⟨⟨⟨⟨⟨⟨by decide,ne_zero_of_plainText h.1⟩,by decide⟩,hdigits _⟩,by decide⟩,hdigits _⟩,
      by decide⟩,ne_zero_of_plainText h.2⟩,by decide⟩
  | comma => decide
  | tail => decide

theorem plainPrint_pieces {pieces : List (Bytes × UInt64)} {offset : UInt64}
    (hurls : ∀ piece ∈ pieces, PlainText piece.1) :
    ∀ print ∈ piecePrints offset pieces, PlainPrint print := by
  induction pieces generalizing offset with
  | nil => exact fun _ h => nomatch h
  | cons piece pieces ih =>
    obtain ⟨url,size⟩ := piece
    intro print hprint
    rcases List.mem_cons.mp hprint with rfl | hprint
    · exact ⟨hurls (url,size) List.mem_cons_self,plainText_bytesToHex _⟩
    · rcases List.mem_append.mp hprint with hcomma | hrest
      · split_ifs at hcomma
        · cases hcomma
        · rw [List.mem_singleton.mp hcomma]
          trivial
      · exact ih (fun p hp => hurls p (List.mem_cons_of_mem _ hp)) print hrest

/-- The text of a reference json. -/
def jsonText (packageSize : ℕ) (packageDigest : Bytes) (pieces : List (Bytes × UInt64)) : Bytes :=
  (jsonPrints packageSize packageDigest pieces).flatMap JsonPrint.text

theorem cstr_jsonText {packageSize : ℕ} {packageDigest : Bytes} {pieces : List (Bytes × UInt64)}
    (hdigest : PlainText packageDigest) (hurls : ∀ piece ∈ pieces, PlainText piece.1) :
    cstr (jsonText packageSize packageDigest pieces) = jsonText packageSize packageDigest pieces := by
  apply cstr_eq_self
  rintro c hc rfl
  obtain ⟨print,hprint,hmem⟩ := List.mem_flatMap.mp hc
  refine ne_zero_text ?_ hmem
  rcases List.mem_cons.mp hprint with rfl | hprint
  · exact hdigest
  · rcases List.mem_append.mp hprint with hpiece | htail
    · exact plainPrint_pieces hurls print hpiece
    · rw [List.mem_singleton.mp htail]
      trivial

/-- A reference json is accepted, and its array has the pieces that were printed. -/
theorem jsonCreate_jsonText {packageSize : ℕ} {packageDigest : Bytes}
    {pieces : List (Bytes × UInt64)} (hdigest : PlainText packageDigest)
    (hurls : ∀ piece ∈ pieces, PlainText piece.1)
    (hsmall : ∀ print ∈ jsonPrints packageSize packageDigest pieces, SmallNumbers print)
    (hroom : 5+5*pieces.length ≤ poolSize) :
    ∃ rest us, PieceTrees 5 us (pieces.map Prod.fst) ∧
      jsonCreate (jsonText packageSize packageDigest pieces) poolSize =
        some (jsonNodes (headLeaves packageSize pieces.length packageDigest rest) us) := by
  obtain ⟨rest,hrest⟩ : ∃ rest, rest =
      (piecePrints 0 pieces).flatMap JsonPrint.text++[0x5d,0x7d] := ⟨_,rfl⟩
  obtain ⟨ts,hts⟩ : ∃ ts, ts = headLeaves packageSize pieces.length packageDigest rest := ⟨_,rfl⟩
  obtain ⟨front,hfront⟩ : ∃ front, front = withLinks 0 rootNode (ts++[leaf piecesArray])::
      linked 1 ts := ⟨_,rfl⟩
  have hlen : front.length = 4 := by rw [hfront,hts]; rfl
  have hcount : pieces.length < 2^63 := by
    have hpool : poolSize < 2^63 := by decide
    omega
  have htext : jsonText packageSize packageDigest pieces =
      0x7b::headProperties packageSize pieces.length packageDigest rest := by
    rw [jsonText,jsonPrints,List.flatMap_cons,List.flatMap_append,text_head,hrest]
    rfl
  have hhead := @leads_head poolSize _ _ _ (hsmall _ List.mem_cons_self) hdigest hcount
    (by omega) rest
  simp only [← hts,← hfront] at hhead
  obtain ⟨us,hus,hpieces⟩ := @leads_pieces poolSize front piecesArray rfl _ 0 [] hurls
    (fun print hprint => hsmall print (List.mem_cons_of_mem _ (List.mem_append_left _ hprint)))
    (by rw [hlen,extent_nil]; omega) [0x5d,0x7d]
  rw [← hrest,hlen,List.nil_append] at hpieces
  rw [hlen] at hus
  have hleave := leave_family [] 4 piecesArray rootNode us ts (by rw [hts]; rfl)
  have hget : (front++family 4 piecesArray us)[4]? = some (withLinks 4 piecesArray us) := by
    rw [← hlen]
    exact family_get _ _ _
  have hclose : Leads poolSize ⟨[0x5d,0x7d],4,front++family 4 piecesArray us⟩
      ⟨[0x7d],0,jsonNodes ts us⟩ := by
    have hparent : (withLinks 4 piecesArray us).sibling = some 0 := rfl
    refine .head (objStep_leave (goBlank_cons (by decide) _) hget hparent) ?_
    rw [hfront]
    exact hleave ▸ .refl _
  have hdone : objStep poolSize ⟨[0x7d],0,jsonNodes ts us⟩ = .done (jsonNodes ts us) :=
    objStep_close (goBlank_cons (by decide) _) rfl rfl
  refine ⟨rest,us,hus,?_⟩
  rw [jsonCreate,cstr_jsonText hdigest hurls,htext,goBlank_cons (by decide),← hts]
  exact objValue_of_leads ((hhead.trans hpieces).trans hclose) hdone (Nat.lt_succ_self _)

end Parsing

section Walks

/-- A piece, as the walks see it. -/
def IsPiece (nodes : List Node) (piece : Node) (url : Bytes) : Prop :=
  jsonGetType piece = .obj ∧ jsonGetPropertyValue nodes piece (bytes "url") = some url

theorem isPiece_of_holdsUrl {front back : List Node} {t : Subtree} {url : Bytes}
    (h : HoldsUrl front.length t url) (next : Option ℕ) :
    IsPiece (front++t.nodes next++back) (setSibling next t.head) url := by
  obtain ⟨parent,hashValue,rest,fileOffset,fileSize,rfl⟩ := h
  refine ⟨rfl,?_⟩
  have hchildren := @children_family front back
    (setSibling next (pieceObject parent)) (pieceLeaves url hashValue rest fileOffset fileSize)
  have hproperty : jsonGetProperty
      (front++(closed front.length (pieceObject parent)
        (pieceLeaves url hashValue rest fileOffset fileSize)).nodes next++back)
      (setSibling next (closed front.length (pieceObject parent)
        (pieceLeaves url hashValue rest fileOffset fileSize)).head) (bytes "url") =
      (heads (front.length+1) (pieceLeaves url hashValue rest fileOffset fileSize)).find?
        fun node => node.name = some (bytes "url") := by
    rw [jsonGetProperty,← hchildren]
    rfl
  rw [jsonGetPropertyValue,hproperty]
  rfl

theorem isPiece_heads {front back : List Node} {i : ℕ} {ts : List Subtree} {urls : List Bytes}
    (h : PieceTrees i ts urls) (hi : i = front.length) :
    List.Forall₂ (IsPiece (front++chain i ts++back)) (heads i ts) urls := by
  induction h generalizing front with
  | nil i => exact .nil
  | @cons i t ts url urls ht hrest ih =>
    subst hi
    have hpiece := @isPiece_of_holdsUrl front (chain (front.length+t.size) ts++back) t url ht
      (nextIndex front.length t ts)
    have hpieces := @ih (front++t.nodes (nextIndex front.length t ts))
      (by simp [length_nodes])
    rw [← List.append_assoc] at hpiece
    have hsplit : front++chain front.length (t::ts)++back =
        (front++t.nodes (nextIndex front.length t ts))++chain (front.length+t.size) ts++back := by
      rw [chain]
      simp only [List.append_assoc]
    rw [hsplit]
    exact .cons hpiece hpieces

variable {originalFileSize numberOfSplitFiles : ℕ} {packageDigest rest : Bytes}
  {us : List Subtree} {urls : List Bytes}

/-- What the walks find in the nodes of a reference json: the array is the fourth property,
and its elements are the pieces. -/
structure FindsPieces (nodes : List Node) (root field : Node) (urls : List Bytes) : Prop where
  atRoot : nodes[0]? = some root
  atField : nodes[4]? = some field
  named : (childIndices nodes root).find? (fun i =>
    (nodes[i]?).any fun node => node.name = some (bytes "pieces")) = some 4
  type : jsonGetType field = .array
  pieces : List.Forall₂ (IsPiece nodes) (children nodes field) urls

theorem findsPieces_jsonNodes (h : PieceTrees 5 us urls) : ∃ root field, FindsPieces
    (jsonNodes (headLeaves originalFileSize numberOfSplitFiles packageDigest rest) us) root field
      urls := by
  obtain ⟨ts,hts⟩ : ∃ ts, ts = headLeaves originalFileSize numberOfSplitFiles packageDigest rest :=
    ⟨_,rfl⟩
  obtain ⟨front,hfront⟩ : ∃ front, front =
      withLinks 0 rootNode (ts++[closed 4 piecesArray us])::linked 1 ts := ⟨_,rfl⟩
  have hlen : front.length = 4 := by rw [hfront,hts]; rfl
  have hnodes : jsonNodes ts us = front++family front.length (setSibling none piecesArray) us := by
    rw [jsonNodes,family,chain_concat,hlen,hfront]
    rfl
  rw [← hts]
  refine ⟨withLinks 0 rootNode (ts++[closed 4 piecesArray us]),
    withLinks 4 (setSibling none piecesArray) us,rfl,?_,?_,rfl,?_⟩
  · rw [hnodes]
    exact hlen ▸ family_get _ _ _
  · have hindices : childIndices (jsonNodes ts us)
        (withLinks 0 rootNode (ts++[closed 4 piecesArray us])) =
        indices 1 (ts++[closed 4 piecesArray us]) := by
      have hfamily := @childIndices_family [] [] rootNode
        (ts++[closed 4 piecesArray us])
      rw [List.append_nil] at hfamily
      exact hfamily
    rw [hindices,hts]
    rfl
  · have hchildren := @children_family front [] (setSibling none piecesArray) us
    rw [List.append_nil,← hnodes,hlen] at hchildren
    have hchain : jsonNodes ts us =
        (front++[withLinks 4 (setSibling none piecesArray) us])++chain 5 us++[] := by
      rw [hnodes,hlen,family]
      simp
    rw [hchildren,hchain]
    exact isPiece_heads h (by simp [hlen])

end Walks

section Urls

variable {sdk : TextSdk} {nodes : List Node} {call : Call}

theorem plainText_urlEncode (s : Bytes) : PlainText (urlEncode s) := by
  have hkept : ∀ n < 256, urlKeeps (UInt8.ofNat n) = true →
      isTextByte (UInt8.ofNat n) = true ∧ escapeByte (UInt8.ofNat n) = [UInt8.ofNat n] := by
    decide +kernel
  have hdigit : ∀ n < 16, isTextByte (hexDigit n) = true ∧ escapeByte (hexDigit n) = [hexDigit n] := by
    decide
  rw [urlEncode_eq]
  intro c hc
  obtain ⟨t,ht,hct⟩ := List.mem_flatMap.mp hc
  obtain ⟨d,_,rfl⟩ := List.mem_map.mp ht
  have hd := d.toNat_lt
  unfold encodeToken at hct
  split_ifs at hct with hkeeps
  · rw [Token.text,List.mem_singleton] at hct
    have hplain := hkept d.toNat hd
    rw [UInt8.ofNat_toNat] at hplain
    exact hct ▸ hplain hkeeps.1
  · simp only [Token.text,List.mem_cons,List.not_mem_nil,or_false] at hct
    rcases hct with rfl | rfl | rfl
    · decide
    · exact hdigit _ (by omega)
    · exact hdigit _ (by omega)

theorem httpUnescapeUri_urlEncode (hinit : sdk.initialized = true) (hsdk : sdk.PlainUnescape)
    (s : Bytes) : httpUnescapeUri sdk (urlEncode s) = some (percentDecode (urlEncode s)) := by
  have hwf : (tokens? (urlEncode s)).isSome = true := by
    rw [urlEncode_eq,encode,tokens?_render]
    rfl
  rw [httpUnescapeUri,hinit,if_neg (by simp),hsdk _ hwf]

theorem hasWebScheme_cstr {s : Bytes} (h : hasWebScheme s = true) : hasWebScheme (cstr s) = true := by
  have hkeep : ∀ scheme : Bytes, (0 : UInt8) ∉ scheme → scheme <+: s → scheme <+: cstr s := by
    rintro scheme hne ⟨rest,rfl⟩
    rw [cstr_append_of_ne_zero fun c hc h0 => hne (h0 ▸ hc)]
    exact List.prefix_append _ _
  simp only [hasWebScheme,Bool.or_eq_true,startsWith_iff] at h ⊢
  exact h.imp (hkeep _ (by decide)) (hkeep _ (by decide))

theorem urlEncode_ne_nil {s : Bytes} (h : hasWebScheme s = true) : urlEncode s ≠ [] := by
  have hscheme := hasWebScheme_cstr h
  rw [← percentDecode_urlEncode] at hscheme
  intro hnil
  rw [hnil] at hscheme
  exact absurd hscheme (by decide)

/-- No allocation of the reader fails, and decoding is plain percent-decoding. -/
structure Succeeds (call : Call) : Prop where
  poolAllocated : call.poolAllocated = true
  checkInitialized : call.checkSdk.initialized = true
  checkUnescape : call.checkSdk.PlainUnescape
  listAllocated : call.listAllocated = true
  fillInitialized : call.fillSdk.initialized = true
  fillUnescape : call.fillSdk.PlainUnescape
  encodeAllocated : ∀ i, call.encodeAllocated i = true

theorem Succeeds.decodes (h : Succeeds call) (sources : List Bytes) :
    Decodes percentDecode (sources.map urlEncode) call := by
  refine ⟨h.poolAllocated,?_,h.listAllocated,?_,h.encodeAllocated⟩
  · intro url hurl
    obtain ⟨s,_,rfl⟩ := List.mem_map.mp hurl
    exact httpUnescapeUri_urlEncode h.checkInitialized h.checkUnescape s
  · intro url hurl
    obtain ⟨s,_,rfl⟩ := List.mem_map.mp hurl
    exact httpUnescapeUri_urlEncode h.fillInitialized h.fillUnescape s

theorem installable_urlEncode {sources : List Bytes} (hne : sources ≠ [])
    (hscheme : ∀ s ∈ sources, hasWebScheme s = true) :
    Installable percentDecode (sources.map urlEncode) := by
  refine ⟨by simpa using hne,fun url hurl => ?_⟩
  obtain ⟨s,hs,rfl⟩ := List.mem_map.mp hurl
  exact ⟨urlEncode_ne_nil (hscheme s hs),
    (percentDecode_urlEncode s).symm ▸ hasWebScheme_cstr (hscheme s hs)⟩

theorem listedUrls_of_finds (hcall : Succeeds call) {sources : List Bytes} (hne : sources ≠ [])
    (hscheme : ∀ s ∈ sources, hasWebScheme s = true)
    (hparse : jsonCreate call.text poolSize = some nodes) {root field : Node}
    (h : FindsPieces nodes root field (sources.map urlEncode)) :
    listedUrls call = some (sources.map urlEncode) := by
  have hlists : ListsPieces call.text (sources.map urlEncode) :=
    ⟨nodes,hparse,root,field,h.atRoot,
      jsonGetProperty_eq_some_iff.mpr ⟨4,h.named,h.atField⟩,h.type,h.pieces⟩
  have hinstalled : installed percentDecode (sources.map urlEncode) =
      sources.map urlEncode := by
    simp [installed,urlEncode_percentDecode_urlEncode]
  rw [listedUrls,(ownResult_eq (hcall.decodes sources) hlists).1
    (installable_urlEncode hne hscheme),hinstalled]
  simp

end Urls

section RoundTrip

open InstallPieces

/-- All that is printed into a reference json in a run. -/
def writtenText (history : List ServerEvent) : Bytes :=
  (history.flatMap printOf).flatMap fun print => print.1.text

theorem printed_foldl (history : List ServerEvent) (s : Seen) :
    (history.foldl see s).printed = s.printed++history.flatMap printOf := by
  induction history generalizing s with
  | nil => simp
  | cons e history ih =>
    rw [List.foldl_cons,ih,List.flatMap_cons,← List.append_assoc]
    rfl

theorem printedText_whole {printed : List (JsonPrint × ℕ)}
    (h : ∀ print ∈ printed, print.1.text.length ≤ print.2) :
    printedText printed = printed.flatMap fun print => print.1.text := by
  induction printed with
  | nil => rfl
  | cons print printed ih =>
    have hrest := ih fun p hp => h p (List.mem_cons_of_mem _ hp)
    rw [printedText] at hrest ⊢
    rw [List.flatMap_cons,List.flatMap_cons,hrest,List.take_of_length_le (h print List.mem_cons_self)]

variable {sslVerify : HttpState.SslVerifyMode} {paths : TempPaths} {sources : List Bytes}
  {history : List ServerEvent} {info : PackageInfo} {call : Call}

/-- What a successful run prints is a reference json of the given URLs. -/
theorem writtenText_eq (hpaths : Distinct paths) {urls : List Bytes}
    (h : Ends (pkgSetupPrerequisites sslVerify paths urls) history (.ok info)) :
    ∃ (digest : Bytes) (sizes : List UInt64), sizes.length = urls.length ∧
      (history.flatMap printOf).map Prod.fst =
        jsonPrints info.packageSize.toNat (bytesToHex digest) (urls.zip sizes) ∧
      writtenText history =
        jsonText info.packageSize.toNat (bytesToHex digest) (urls.zip sizes) := by
  obtain ⟨hpublished,-⟩ := (yields_pkgSetupPrerequisites (s := Seen.start fun _ => none) hpaths urls
    rfl rfl).ends h
  obtain ⟨digest,sizes,hlen,hprints⟩ := hpublished.prints
  rw [printed_foldl] at hprints
  change (history.flatMap printOf).map Prod.fst = _ at hprints
  refine ⟨digest,sizes,hlen,hprints,?_⟩
  rw [writtenText,jsonText,← hprints,List.flatMap_map]

/-- What `pkg_setup_prerequisites` writes for encoded URLs is accepted by the reader, which
takes exactly these URLs from it, if its pool has room for them. -/
theorem refPkgJson_readBack (hpaths : Distinct paths) (hcall : Succeeds call)
    (hscheme : ∀ s ∈ sources, hasWebScheme s = true) (hroom : 5+5*sources.length ≤ poolSize)
    (h : Ends (pkgSetupPrerequisites sslVerify paths (sources.map urlEncode)) history (.ok info))
    (hsmall : ∀ print ∈ history.flatMap printOf, SmallNumbers print.1) :
    (∀ files, (∀ print ∈ history.flatMap printOf, print.1.text.length ≤ print.2) →
      (history.foldl see (Seen.start files)).files paths.refPkgJson = some (writtenText history)) ∧
    (jsonCreate (writtenText history) poolSize).isSome = true ∧
    ∀ downloaded, downloaded.data = writtenText history → downloaded.totalSize ≠ 0 →
      urlsOfAnswer call (some downloaded) = some (sources.map urlEncode) := by
  obtain ⟨digest,sizes,hlen,hprints,htext⟩ := writtenText_eq hpaths h
  have hzip : ((sources.map urlEncode).zip sizes).map Prod.fst = sources.map urlEncode :=
    List.map_fst_zip hlen.ge
  have hplain : ∀ piece ∈ (sources.map urlEncode).zip sizes, PlainText piece.1 := by
    intro piece hpiece
    obtain ⟨s,_,hs⟩ := List.mem_map.mp (List.of_mem_zip hpiece).1
    exact hs ▸ plainText_urlEncode s
  have hnumbers : ∀ print ∈ jsonPrints info.packageSize.toNat (bytesToHex digest)
      ((sources.map urlEncode).zip sizes), SmallNumbers print := by
    intro print hprint
    rw [← hprints] at hprint
    obtain ⟨p,hp,rfl⟩ := List.mem_map.mp hprint
    exact hsmall p hp
  have hcount : 5+5*((sources.map urlEncode).zip sizes).length ≤ poolSize := by
    simpa [hlen] using hroom
  obtain ⟨rest,us,hus,hparse⟩ := jsonCreate_jsonText (plainText_bytesToHex digest) hplain hnumbers
    hcount
  rw [hzip] at hus
  rw [← htext] at hparse
  refine ⟨fun files hwhole => ?_,by rw [hparse]; rfl,fun downloaded hdata hsize => ?_⟩
  · obtain ⟨hpublished,-⟩ :=
      (yields_pkgSetupPrerequisites (s := Seen.start files) hpaths _ rfl rfl).ends h
    rw [hpublished.json,printed_foldl]
    exact congrArg some (printedText_whole hwhole)
  · obtain ⟨root,field,hfinds⟩ := findsPieces_jsonNodes hus
    have hne : sources ≠ [] := by
      intro hnil
      exact urls_ne_nil h (by rw [hnil]; rfl)
    rw [urlsOfAnswer,if_neg hsize,hdata]
    have hread : Succeeds { call with text := writtenText history } :=
      ⟨hcall.1,hcall.2,hcall.3,hcall.4,hcall.5,hcall.6,hcall.7⟩
    exact listedUrls_of_finds hread hne hscheme hparse hfinds

/-- Two hosts that have a package of 0x3000 bytes, and a disk without end. -/
def splitReply : (c : ServerCall) → Reply c
  | .httpDownloadFile _ _ 0 _ => some ⟨sampleHeader,0x2000,0x2900⟩
  | .httpGetFileSize _ _ => some 0x700
  | c => sampleReply ⟨0,1⟩ c

def splitSources : List Bytes := [bytes "http://h/a b_0.pkg",bytes "http://h/a b_1.pkg"]

def splitSetup : Setup PackageInfo :=
  pkgSetupPrerequisites .on (tempPaths sampleStream) (splitSources.map urlEncode)

def splitHistory : List ServerEvent :=
  Program.history (fun (_ : Unit) c => ((),splitReply c)) splitSetup ()

theorem splitSetup_ends : Ends splitSetup splitHistory (.ok ⟨0x1a,0x3000,false,false⟩) := by
  have hrun : (Program.run (fun (_ : Unit) c => ((),splitReply c)) splitSetup ()).2 =
      .ok ⟨0x1a,0x3000,false,false⟩ := by decide +kernel
  exact hrun ▸ ends_run _ _ _

theorem plainCall_succeeds (text : Bytes) : Succeeds (plainCall text) :=
  ⟨rfl,rfl,plainSdk_plainUnescape,rfl,rfl,plainSdk_plainUnescape,fun _ => rfl⟩

theorem refPkgJson_readBack_example :
    urlsOfAnswer (plainCall []) (some ⟨writtenText splitHistory,382,382⟩) =
      some [bytes "http://h/a%20b_0.pkg",bytes "http://h/a%20b_1.pkg"] := by
  have hscheme : ∀ s ∈ splitSources, hasWebScheme s = true := by decide +kernel
  have hread := (refPkgJson_readBack (TempFiles.tempPaths_distinct sampleStream)
    (plainCall_succeeds []) hscheme (by decide)
    splitSetup_ends (by decide +kernel)).2.2 ⟨writtenText splitHistory,382,382⟩ rfl (by decide)
  have hurls : splitSources.map urlEncode =
      [bytes "http://h/a%20b_0.pkg",bytes "http://h/a%20b_1.pkg"] := by decide +kernel
  rw [hread,hurls]

end RoundTrip

end ReferenceJson
end RemotePkgInstaller
