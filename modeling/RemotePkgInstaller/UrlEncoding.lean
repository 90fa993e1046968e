import RemotePkgInstaller.Util

/-! Percent-encoding as `url_encode` does it: it can be undone, and its output has an alphabet of
its own. -/
namespace RemotePkgInstaller
namespace UrlEncoding

open PercentCoding UrlComponents Util

/-- Decoding undoes the encoding, up to the first NUL. -/
theorem percentDecode_urlEncode (s : Bytes) : percentDecode (urlEncode s) = cstr s := by
  rw [urlEncode_eq,encode,percentDecode_render]
  simp [Function.comp_def]

theorem urlEncode_percentDecode_urlEncode (s : Bytes) :
    urlEncode (percentDecode (urlEncode s)) = urlEncode s := by
  have hcstr : cstr (cstr s) = cstr s := cstr_eq_self fun c hc => cstr_ne_zero hc
  rw [percentDecode_urlEncode,urlEncode_eq,hcstr,← urlEncode_eq]

/-- A byte that is kept, or `%` and two lower-case hexadecimal digits. -/
def Piece (p : Bytes) : Prop :=
  (∃ c, p = [c] ∧ (isalnum c = true ∨ c ∈ bytes "-_.~+:/@")) ∨
    ∃ hi lo, p = [0x25,hi,lo] ∧ hi ∈ hexDigits ∧ lo ∈ hexDigits

theorem urlKeeps_iff (c : UInt8) :
    urlKeeps c = true ↔ isalnum c = true ∨ c ∈ bytes "-_.~+:/@" := by
  have hbytes : bytes "-_.~+:/@" = [0x2d,0x5f,0x2e,0x7e,0x2b,0x3a,0x2f,0x40] := by decide
  simp only [urlKeeps,hbytes,Bool.or_eq_true,beq_iff_eq,List.mem_cons,List.not_mem_nil,or_false,
    or_assoc]

theorem hexDigit_mem : ∀ n < 16, hexDigit n ∈ hexDigits := by decide

theorem piece_encodeToken (c : UInt8) : Piece (encodeToken urlKeeps c).text := by
  have hc := c.toNat_lt
  unfold encodeToken
  split_ifs with h
  · exact Or.inl ⟨c,rfl,(urlKeeps_iff c).mp h.1⟩
  · exact Or.inr ⟨_,_,rfl,hexDigit_mem _ (by omega),hexDigit_mem _ (by omega)⟩

theorem text_length_le (t : Token) : t.text.length ≤ 3 := by
  cases t with
  | raw c h => exact Nat.le_of_ble_eq_true rfl
  | esc hi lo h => exact le_rfl

/-- The output is put together of such pieces, one for each byte. -/
theorem urlEncode_pieces (s : Bytes) : ∃ pieces : List Bytes,
    urlEncode s = pieces.flatten ∧ pieces.length = (cstr s).length ∧ ∀ p ∈ pieces, Piece p := by
  refine ⟨(cstr s).map fun c => (encodeToken urlKeeps c).text,?_,List.length_map _,?_⟩
  · rw [urlEncode_eq,encode,render,List.flatMap_def,List.map_map]
    rfl
  · intro p hp
    obtain ⟨c,_,rfl⟩ := List.mem_map.mp hp
    exact piece_encodeToken c

theorem urlEncode_length_le (s : Bytes) : (urlEncode s).length ≤ 3*(cstr s).length := by
  rw [urlEncode_eq]
  induction cstr s with
  | nil => simp [encode]
  | cons c s ih =>
    have hc := text_length_le (encodeToken urlKeeps c)
    rw [encode,List.map_cons,render_cons,List.length_append,List.length_cons]
    rw [encode] at ih
    omega

/-- Encoding loses nothing and stays in its alphabet and in the buffer, and it makes no
difference to encode a decoded text once more. -/
theorem urlEncode_lossless (s : Bytes) (hs : (0 : UInt8) ∉ s) :
    percentDecode (urlEncode s) = s ∧
      (∃ pieces : List Bytes, urlEncode s = pieces.flatten ∧ ∀ p ∈ pieces, Piece p) ∧
      (urlEncode s).length+1 ≤ 3*s.length+1 ∧
      urlEncode (percentDecode (urlEncode s)) = urlEncode s := by
  have hcstr : cstr s = s := cstr_eq_self fun c hc h0 => hs (h0 ▸ hc)
  obtain ⟨pieces,hpieces,_,hpiece⟩ := urlEncode_pieces s
  have hlength := urlEncode_length_le s
  rw [hcstr] at hlength
  exact ⟨(percentDecode_urlEncode s).trans hcstr,⟨pieces,hpieces,hpiece⟩,by omega,
    urlEncode_percentDecode_urlEncode s⟩

theorem urlEncode_lossless_example :
    let s : Bytes := bytes "http://h/100% a"++[0xc3,0xa9]
    percentDecode (urlEncode s) = s ∧
      (∃ pieces : List Bytes, urlEncode s = pieces.flatten ∧ ∀ p ∈ pieces, Piece p) ∧
      (urlEncode s).length+1 ≤ 3*s.length+1 ∧
      urlEncode (percentDecode (urlEncode s)) = urlEncode s :=
  urlEncode_lossless _ (by decide)

end UrlEncoding
end RemotePkgInstaller
