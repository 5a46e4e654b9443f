import Mathlib.Tactic
import Ratelimitly.ApiKeyFormat
import Ratelimitly.Lib.Text

/-! A burst of up to six wrong characters in the data part of an API key is rejected. -/
namespace Ratelimitly

open Lib

/-! ### Decoding returns -/

theorem returns_convertBits (data : List UInt8) : (convertBits data 5 8 false).Returns := by
  rw [convertBits_strict]
  obtain ⟨-, acc, bits, out, hloop, -, hlt⟩ | ⟨-, hloop⟩ := convertLoop_strict data
  · have hle : bits ≤ 8 := UInt8.le_iff_toNat_le.mpr (Nat.le_of_lt hlt)
    have hsub : (8 - bits).toNat = 8 - bits.toNat := UInt8.toNat_sub_of_le _ _ hle
    rw [hloop, Outcome.ok_bind]
    refine (Outcome.returns_failIf _ _).bind fun _ _ => ?_
    rw [sub8_of_le hle, Outcome.ok_bind, shl32_of_lt (by rw [hsub]; omega), Outcome.ok_bind]
    exact (Outcome.returns_failIf _ _).bind fun _ _ => Outcome.returns_ok _
  · rw [hloop]
    exact Outcome.returns_err _

theorem returns_bech32Decode (addr : List Char) : (bech32Decode addr).Returns := by
  unfold bech32Decode
  dsimp only
  refine (Outcome.returns_failIf _ _).bind fun _ _ => ?_
  refine (Outcome.returns_failIf _ _).bind fun _ _ => ?_
  refine (Outcome.returns_failIf _ _).bind fun _ _ => ?_
  refine (Outcome.returns_okOr _ _).bind fun pos hpos => ?_
  obtain ⟨before, after, hs, -, rfl⟩ := rfind_eq_some (Outcome.okOr_eq_ok_iff.mp hpos)
  rw [hs]
  refine (Outcome.returns_failIf _ _).bind fun _ _ => ?_
  rw [subUsize_of_le (by simp), Outcome.ok_bind, subUsize_of_le (by simp), Outcome.ok_bind]
  refine (Outcome.returns_failIf _ _).bind fun _ hlen => ?_
  rw [Outcome.failIf_eq_ok_iff] at hlen
  simp only [List.length_append, List.length_cons] at hlen
  rw [slice_of_le (by omega) (by simp), Outcome.ok_bind, slice_of_le (by simp) le_rfl,
    Outcome.ok_bind]
  refine (Outcome.returns_mapList (fun c => Outcome.returns_okOr _ _) _).bind fun data hdata => ?_
  have hdlen := (Outcome.mapList_eq_ok_iff.mp hdata).length_eq
  rw [length_sub_of_le le_rfl] at hdlen
  simp only [List.length_append, List.length_cons] at hdlen
  refine (Outcome.returns_failIf _ _).bind fun _ _ => ?_
  rw [subUsize_of_le (by omega), Outcome.ok_bind, slice_of_le (by omega) (by omega),
    Outcome.ok_bind]
  exact (returns_convertBits _).bind fun _ _ => Outcome.returns_ok _

theorem returns_limitsFromPayload {payload : List UInt8} {offset : ℕ}
    (h : offset + 4 ≤ payload.length) : (limitsFromPayload payload offset).Returns := by
  rw [limitsFromPayload, u32Slice_of_le rfl h, Outcome.ok_bind]
  unfold limitsFromWord
  dsimp only
  exact (Outcome.returns_failIf _ _).bind fun _ _ => Outcome.returns_ok _

/-- No input makes the decoder panic. -/
theorem returns_decodeApiKey (encoded : String) : (decodeApiKey encoded).Returns := by
  unfold decodeApiKey
  refine (returns_bech32Decode _).bind fun ⟨hrp, payload⟩ _ => ?_
  refine (Outcome.returns_okOr _ _).bind fun authMethod _ => ?_
  dsimp only
  split_ifs
  · exact (Outcome.returns_failIf _ _).bind fun _ _ => Outcome.returns_ok _
  · refine (Outcome.returns_failIf _ _).bind fun _ hlen => ?_
    rw [Outcome.failIf_eq_ok_iff, not_not] at hlen
    rw [index_of_lt (by omega), Outcome.ok_bind]
    refine (Outcome.returns_failIf _ _).bind fun _ _ => ?_
    rw [u64Slice_of_le rfl (by omega), Outcome.ok_bind]
    exact (returns_limitsFromPayload (by omega)).bind fun _ _ => Outcome.returns_ok _
  · refine (Outcome.returns_failIf _ _).bind fun _ hlen => ?_
    rw [Outcome.failIf_eq_ok_iff, not_not] at hlen
    rw [index_of_lt (by omega), Outcome.ok_bind]
    refine (Outcome.returns_failIf _ _).bind fun _ _ => ?_
    rw [u64Slice_of_le rfl (by omega), Outcome.ok_bind, slice_of_le (by omega) (by omega),
      Outcome.ok_bind]
    exact (returns_limitsFromPayload (by omega)).bind fun _ _ => Outcome.returns_ok _
  · exact Outcome.returns_err _

/-! ### Symbols of a text -/

/-- The symbols that the characters of a data part stand for. -/
def charSymbols (chars : List Char) : List UInt8 := chars.filterMap charToValue

theorem charSymbols_append (xs ys : List Char) :
    charSymbols (xs ++ ys) = charSymbols xs ++ charSymbols ys := List.filterMap_append

theorem charSymbols_symbolChars {data : List UInt8} (h : ∀ x ∈ values data, x < 2 ^ 5) :
    charSymbols (symbolChars data) = data := by
  induction data with
  | nil => rfl
  | cons v data ih =>
    simp only [values, List.map_cons, List.mem_cons, forall_eq_or_imp] at h
    obtain ⟨c, hc⟩ := exists_valueToChar h.1
    have hrest := ih h.2
    simp only [charSymbols, symbolChars] at hrest ⊢
    rw [List.filterMap_cons_some hc, List.filterMap_cons_some (charToValue_of_valueToChar hc).1,
      hrest]

/-- The characters of the charset. -/
def IsSymbol (c : Char) : Prop := ∃ v, charToValue c = some v

theorem isSymbol_of_mem_symbolChars {data : List UInt8} {c : Char} (h : c ∈ symbolChars data) :
    IsSymbol c := by
  obtain ⟨v, -, hv⟩ := List.mem_filterMap.mp h
  exact ⟨v, (charToValue_of_valueToChar hv).1⟩

theorem symbolChars_charSymbols {chars : List Char} (h : ∀ c ∈ chars, IsSymbol c) :
    symbolChars (charSymbols chars) = chars := by
  induction chars with
  | nil => rfl
  | cons c chars ih =>
    obtain ⟨v, hv⟩ := h c List.mem_cons_self
    have hrest := ih fun c hc => h c (List.mem_cons_of_mem _ hc)
    simp only [charSymbols, symbolChars] at hrest ⊢
    rw [List.filterMap_cons_some hv, List.filterMap_cons_some (valueToChar_of_charToValue hv), hrest]

theorem length_charSymbols {chars : List Char} (h : ∀ c ∈ chars, IsSymbol c) :
    (charSymbols chars).length = chars.length := by
  induction chars with
  | nil => rfl
  | cons c chars ih =>
    obtain ⟨v, hv⟩ := h c List.mem_cons_self
    have hrest := ih fun c hc => h c (List.mem_cons_of_mem _ hc)
    simp only [charSymbols] at hrest ⊢
    rw [List.filterMap_cons_some hv, List.length_cons, List.length_cons, hrest]

theorem values_charSymbols_lt (chars : List Char) : ∀ x ∈ values (charSymbols chars), x < 2 ^ 5 := by
  intro x hx
  obtain ⟨v, hv, rfl⟩ := List.mem_map.mp hx
  obtain ⟨c, -, hc⟩ := List.mem_filterMap.mp hv
  exact (charToValue_of_valueToChar (valueToChar_of_charToValue hc)).2.1

theorem symbols_injective {xs ys : List UInt8} (hx : ∀ x ∈ values xs, x < 2 ^ 5)
    (hy : ∀ y ∈ values ys, y < 2 ^ 5) (h : symbols xs = symbols ys) : xs = ys := by
  have hmap := congrArg (List.map BitVec.toNat) h
  rw [symbols_map_toNat hx, symbols_map_toNat hy] at hmap
  exact values_injective hmap

/-! ### Bursts -/

/-- The checksum equation of a text with the data part `chars`. -/
def Codeword (hrp chars : List Char) : Prop :=
  (∀ c ∈ chars, IsSymbol c) ∧
    register.absorb 1#30 (symbols (hrpExpand hrp ++ charSymbols chars)) = 1#30

theorem codeword_symbolChars {hrp : List Char} {data : List UInt8}
    (h : ∀ x ∈ values data, x < 2 ^ 5) :
    Codeword hrp (symbolChars (data ++ createChecksum hrp data)) := by
  have hall := append_createChecksum_lt hrp h
  have hverify := (verifyChecksum_append_iff h (createChecksum_lt hrp data)
    (length_createChecksum hrp data)).mpr rfl
  refine ⟨fun c hc => isSymbol_of_mem_symbolChars hc, ?_⟩
  rw [charSymbols_symbolChars hall]
  have hsym : ∀ x ∈ values (hrpExpand hrp ++ (data ++ createChecksum hrp data)), x < 2 ^ 5 := by
    intro x hx
    rw [values_append, List.mem_append] at hx
    exact hx.elim (hrpExpand_lt hrp x) (hall x)
  have hpoly := polymod_toBitVec hsym
  rw [of_decide_eq_true hverify] at hpoly
  apply BitVec.eq_of_toNat_eq
  have hnat := congrArg BitVec.toNat hpoly
  rw [BitVec.toNat_setWidth, Nat.mod_eq_of_lt (by omega)] at hnat
  exact hnat.symm

/-- Two codewords that differ in a window of six characters are equal. -/
theorem Codeword.window_eq {hrp p w w' b : List Char} (h : Codeword hrp (p ++ w ++ b))
    (h' : Codeword hrp (p ++ w' ++ b)) (hlen : w'.length = w.length) (hle : w.length ≤ 6) :
    w' = w := by
  have hw : ∀ c ∈ w, IsSymbol c := fun c hc => h.1 c (by simp [hc])
  have hw' : ∀ c ∈ w', IsSymbol c := fun c hc => h'.1 c (by simp [hc])
  have hsplit (u : List Char) : symbols (hrpExpand hrp ++ charSymbols (p ++ u ++ b)) =
      symbols (hrpExpand hrp ++ charSymbols p) ++ symbols (charSymbols u) ++
        symbols (charSymbols b) := by
    simp [symbols, charSymbols_append]
  have hstates : register.absorb 1#30 (symbols (hrpExpand hrp ++ charSymbols p) ++
        symbols (charSymbols w') ++ symbols (charSymbols b)) =
      register.absorb 1#30 (symbols (hrpExpand hrp ++ charSymbols p) ++
        symbols (charSymbols w) ++ symbols (charSymbols b)) := by
    rw [← hsplit, ← hsplit, h.2, h'.2]
  have hburst := LinearRegister.burst_detected register_faithful register_keepsBursts
    (by simp [symbols, length_charSymbols hw, length_charSymbols hw', hlen])
    (by simp [symbols, length_charSymbols hw', hlen, hle]) hstates
  have heq := symbols_injective (values_charSymbols_lt w') (values_charSymbols_lt w) hburst
  rw [← symbolChars_charSymbols hw', heq, symbolChars_charSymbols hw]

/-- The human-readable parts that are accepted. -/
theorem hrp_of_decodeApiKey {s : String} {key : DecodedApiKey} (h : decodeApiKey s = .ok key) :
    ∃ hrp payload, bech32Decode s.toList = .ok (hrp, payload) ∧ '1' ∉ hrp ∧ hrp.head? = some 'r' := by
  unfold decodeApiKey at h
  rw [Outcome.bind_eq_ok_iff] at h
  obtain ⟨⟨hrp, payload⟩, hdecode, h⟩ := h
  rw [Outcome.bind_eq_ok_iff] at h
  obtain ⟨method, hmethod, h⟩ := h
  rw [Outcome.okOr_eq_ok_iff, stripPrefix_eq_some_iff] at hmethod
  subst hmethod
  refine ⟨_, payload, hdecode, ?_, rfl⟩
  have htext : method = (String.ofList method).toList := String.toList_ofList.symm
  dsimp only at h
  split_ifs at h with hsecret hnone hother
  · rw [htext, hsecret]
    decide
  · rw [htext, hnone]
    decide
  · rw [htext]
    rcases hother with hm | hm <;> rw [hm] <;> decide

theorem text_of_decodeApiKey {s : String} {key : DecodedApiKey} (h : decodeApiKey s = .ok key) :
    ¬ MixedCase s ∧ ∃ hrp chars, s.toList.map Char.toLower = hrp ++ '1' :: chars ∧ '1' ∉ hrp ∧
      hrp.head? = some 'r' ∧ Codeword hrp chars := by
  obtain ⟨hrp, payload, hdecode, hsep, hr⟩ := hrp_of_decodeApiKey h
  obtain ⟨-, hcase, -, data, hconv, htext⟩ := bech32Decode_eq_ok_iff.mp hdecode
  exact ⟨hcase, hrp, _, htext, hsep, hr,
    codeword_symbolChars (convertBits_decode_eq_ok_iff.mp hconv).1⟩

/-! ### Letter case -/

/-- Characters that agree up to case are equal unless they mix cases. -/
theorem toLower_inj {c d : Char} (h : c.toLower = d.toLower)
    (hcase : ¬ ((c.isLower ∨ d.isLower) ∧ (c.isUpper ∨ d.isUpper))) : c = d := by
  have hn := congrArg Char.toNat h
  simp only [toNat_toLower, isUpper_iff, isLower_iff] at hn hcase
  apply Char.toNat_inj.mp
  split_ifs at hn with h1 h2 <;> omega

theorem isLower_or_isUpper_of_toLower_eq_r {c : Char} (h : c.toLower = 'r') :
    c.isLower = true ∨ c.isUpper = true := by
  have hn := congrArg Char.toNat h
  simp only [toNat_toLower, isUpper_iff, isLower_iff, Char.reduceToNat] at hn ⊢
  split_ifs at hn <;> omega

theorem eq_of_map_toLower_eq {w w' : List Char}
    (hinj : ∀ d ∈ w', ∀ e ∈ w, d.toLower = e.toLower → d = e)
    (h : w'.map Char.toLower = w.map Char.toLower) : w' = w := by
  induction w generalizing w' with
  | nil => exact List.map_eq_nil_iff.mp h
  | cons e w ih =>
    cases w' with
    | nil => cases h
    | cons d w' =>
      rw [List.map_cons, List.map_cons, List.cons.injEq] at h
      rw [hinj d List.mem_cons_self e List.mem_cons_self h.1,
        ih (fun d hd e he => hinj d (List.mem_cons_of_mem _ hd) e (List.mem_cons_of_mem _ he)) h.2]

/-- Two texts with a letter in common use the same case throughout. -/
theorem eq_of_toLower_eq_of_common {s s' : String} (hs : ¬ MixedCase s) (hs' : ¬ MixedCase s')
    {c d e : Char} (hc : c ∈ s.toList) (hc' : c ∈ s'.toList)
    (hletter : c.isLower = true ∨ c.isUpper = true) (hd : d ∈ s'.toList) (he : e ∈ s.toList)
    (h : d.toLower = e.toLower) : d = e := by
  refine toLower_inj h ?_
  simp only [MixedCase, List.any_eq_true] at hs hs'
  rintro ⟨hlower, hupper⟩
  rcases hletter with hl | hu
  · rcases hupper with hd' | he'
    · exact hs' ⟨⟨c, hc', hl⟩, ⟨d, hd, hd'⟩⟩
    · exact hs ⟨⟨c, hc, hl⟩, ⟨e, he, he'⟩⟩
  · rcases hlower with hd' | he'
    · exact hs' ⟨⟨d, hd, hd'⟩, ⟨c, hc', hu⟩⟩
    · exact hs ⟨⟨e, he, he'⟩, ⟨c, hc, hu⟩⟩

/-! ### The separator -/

/-- Two splits of a text at its first separator agree. -/
theorem append_cons_inj {c : Char} {xs xs' ys ys' : List Char} (h : xs ++ c :: ys = xs' ++ c :: ys')
    (hx : c ∉ xs) (hx' : c ∉ xs') : xs = xs' ∧ ys = ys' := by
  induction xs generalizing xs' with
  | nil =>
    cases xs' with
    | nil => simpa using h
    | cons d xs' => exact absurd (List.cons.inj h).1 fun hd => hx' (hd ▸ List.mem_cons_self)
  | cons d xs ih =>
    cases xs' with
    | nil => exact absurd (List.cons.inj h).1 fun hd => hx (hd ▸ List.mem_cons_self)
    | cons e xs' =>
      simp only [List.cons_append, List.cons.injEq, List.mem_cons, not_or] at h hx hx'
      obtain ⟨rfl, h⟩ := h
      obtain ⟨rfl, rfl⟩ := ih h hx.2 hx'.2
      exact ⟨rfl, rfl⟩

/-- What precedes text without separators ends inside the data part. -/
theorem exists_data_prefix {hrp chars a u : List Char} (h : a ++ u = hrp ++ '1' :: chars)
    (hu : '1' ∉ u) : ∃ p, a = hrp ++ '1' :: p ∧ chars = p ++ u := by
  obtain ⟨m, -, hm⟩ | ⟨m, rfl, hm⟩ := List.append_eq_append_iff.mp h
  · exact absurd (hm ▸ List.mem_append_right m List.mem_cons_self) hu
  · cases m with
    | nil =>
      rw [List.nil_append] at hm
      exact absurd (hm ▸ List.mem_cons_self) hu
    | cons d p =>
      obtain ⟨rfl, rfl⟩ := List.cons.inj hm
      exact ⟨p, rfl, rfl⟩

/-- No key survives a burst of up to six wrong characters after its last separator. -/
theorem decodeApiKey_burst_rejected {s s' : String} {key : DecodedApiKey} {a w w' b : List Char}
    (hkey : decodeApiKey s = .ok key) (hs : s.toList = a ++ w ++ b) (hs' : s'.toList = a ++ w' ++ b)
    (hlen : w'.length = w.length) (hle : w.length ≤ 6) (hdata : '1' ∉ w ++ b) (hne : s' ≠ s) :
    ∃ e, decodeApiKey s' = .err e := by
  refine (returns_decodeApiKey s').exists_err fun key' hkey' => hne ?_
  obtain ⟨hcase, hrp, chars, htext, hsep, hr, hcode⟩ := text_of_decodeApiKey hkey
  obtain ⟨hcase', hrp', chars', htext', hsep', -, hcode'⟩ := text_of_decodeApiKey hkey'
  have hdata' : '1' ∉ (w ++ b).map Char.toLower := by
    intro h
    obtain ⟨c, hc, h1⟩ := List.mem_map.mp h
    exact hdata ((toLower_eq_iff (by decide)).mp h1 ▸ hc)
  rw [hs, List.append_assoc, List.map_append] at htext
  obtain ⟨p, ha, rfl⟩ := exists_data_prefix htext hdata'
  -- The replacement may contain separators, but the first one is still that of `s`.
  rw [hs', List.append_assoc, List.map_append, ha, List.append_assoc, List.cons_append] at htext'
  obtain ⟨rfl, rfl⟩ := append_cons_inj htext' hsep hsep'
  rw [List.map_append, ← List.append_assoc] at hcode hcode'
  have hlower := hcode.window_eq hcode' (by simpa using hlen) (by simpa using hle)
  have hr' : 'r' ∈ a.map Char.toLower := by
    rw [ha]
    exact List.mem_append_left _ (List.mem_of_mem_head? hr)
  obtain ⟨c, hca, hc⟩ := List.mem_map.mp hr'
  have hw : w' = w := by
    refine eq_of_map_toLower_eq (fun d hd e he => ?_) hlower
    exact eq_of_toLower_eq_of_common hcase hcase' (c := c) (by simp [hs, hca]) (by simp [hs', hca])
      (isLower_or_isUpper_of_toLower_eq_r hc) (by simp [hs', hd]) (by simp [hs, he])
  rw [← String.toList_inj, hs, hs', hw]

theorem decodeApiKey_burst_rejected_swap :
    ∃ e, decodeApiKey "rl-none1qyyqwps9qspsyq2sk8e0sfdpy3s" = .err e := by
  obtain ⟨key, hkey⟩ := Outcome.isOk_iff.mp
    (show (decodeApiKey "rl-none1qyyqwps9qspsyq2sk8e0sfdp3ys").isOk = true by decide +kernel)
  have hs : "rl-none1qyyqwps9qspsyq2sk8e0sfdp3ys".toList =
      "rl-none1qyyqwps9qspsyq2sk8e0sfdp".toList ++ ['3', 'y'] ++ ['s'] := by decide +kernel
  have hs' : "rl-none1qyyqwps9qspsyq2sk8e0sfdpy3s".toList =
      "rl-none1qyyqwps9qspsyq2sk8e0sfdp".toList ++ ['y', '3'] ++ ['s'] := by decide +kernel
  exact decodeApiKey_burst_rejected hkey hs hs' rfl (by decide) (by decide) (by decide)

end Ratelimitly
