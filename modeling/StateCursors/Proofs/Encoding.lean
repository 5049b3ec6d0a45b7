import Mathlib.Tactic.SplitIfs
import StateCursors.Text.Utf8

/-!
# Written text is read back

The octets that a text is written with are read as its characters, none of them as damage, whatever
follows, and octets that are read as a character are those that it is written with. So octets are
read as a text exactly if the text was written with them, and different texts have different octets.
-/

namespace StateCursors

/-- A text has the glyphs of its characters, and no others. -/
theorem Glyph.text?_eq_some {glyphs : List Glyph} {text : String} :
    Glyph.text? glyphs = some text ↔ glyphs = text.toList.map .char := by
  have hchars : ∀ cs : List Char, glyphs.mapM Glyph.char? = some cs ↔ glyphs = cs.map .char := by
    intro cs
    induction glyphs generalizing cs with
    | nil => cases cs <;> simp
    | cons glyph glyphs ih =>
        cases glyph with
        | char c =>
            cases cs with
            | nil => simp [Glyph.char?, Option.bind_eq_some_iff]
            | cons d cs => simp [Glyph.char?, Option.bind_eq_some_iff, ih, and_comm, and_assoc]
        | stray octet => cases cs <;> simp [Glyph.char?]
  rw [Glyph.text?, Option.map_eq_some_iff]
  simp only [hchars]
  constructor
  · rintro ⟨cs, rfl, rfl⟩
    rw [String.toList_ofList]
  · rintro rfl
    exact ⟨text.toList, rfl, String.ofList_toList⟩

namespace Utf8

section Octets

variable {n : Nat}

theorem toNat_ofNat (hn : n < 256) : (UInt8.ofNat n).toNat = n := by
  rw [UInt8.toNat_ofNat', Nat.mod_eq_of_lt hn]

theorem ofNat_eq (octet : UInt8) (hn : n = octet.toNat) : UInt8.ofNat n = octet := by
  rw [hn, UInt8.ofNat_toNat]

theorem isContinuation_iff {octet : UInt8} :
    isContinuation octet = true ↔ 0x80 ≤ octet.toNat ∧ octet.toNat < 0xC0 := by
  simp [isContinuation]

/-- The octets that continue a character carry six bits each. -/
theorem payload_continuation (n : Nat) : payload (UInt8.ofNat (0x80 + n % 64)) = n % 64 := by
  rw [payload, toNat_ofNat (by omega)]
  omega

theorem isContinuation_continuation (n : Nat) :
    isContinuation (UInt8.ofNat (0x80 + n % 64)) = true := by
  simp only [isContinuation, toNat_ofNat (show 0x80 + n % 64 < 256 by omega), Bool.and_eq_true,
    decide_eq_true_eq]
  omega

end Octets

theorem toNat_char {code : Nat} (hvalid : code.isValidChar) : (Char.ofNat code).toNat = code := by
  rw [Char.ofNat, dif_pos hvalid]
  rfl

theorem scalar?_eq_some {least code : Nat} {c : Char} (hscalar : scalar? least code = some c) :
    least ≤ code ∧ c.toNat = code := by
  unfold scalar? at hscalar
  split at hscalar
  next hcode =>
    obtain rfl := Option.some.inj hscalar
    simp only [Bool.and_eq_true, Bool.or_eq_true, decide_eq_true_eq] at hcode
    exact ⟨hcode.1, toNat_char (by unfold Nat.isValidChar; omega)⟩
  next => cases hscalar

theorem scalar?_toNat (c : Char) {least : Nat} (hleast : least ≤ c.toNat) :
    scalar? least c.toNat = some c := by
  have hvalid : c.toNat < 0xD800 ∨ 0xDFFF < c.toNat ∧ c.toNat < 0x110000 := c.valid
  rw [scalar?, if_pos, Char.ofNat_toNat]
  simp only [Bool.and_eq_true, Bool.or_eq_true, decide_eq_true_eq]
  omega

/-- The first octet of a character tells how many octets continue it, and all together tell the
character. -/
theorem leading?_encodeChar (c : Char) (rest : Octets) : ∃ lead more,
    encodeChar c = lead :: more ∧ leading? lead (more ++ rest) = some (c, more.length) := by
  have hlimit : c.toNat < 0x110000 := by
    have hvalid : c.toNat < 0xD800 ∨ 0xDFFF < c.toNat ∧ c.toNat < 0x110000 := c.valid
    omega
  unfold encodeChar
  dsimp only
  split_ifs with hone htwo hthree <;> refine ⟨_, _, rfl, ?_⟩ <;> unfold leading?
  · simp only [toNat_ofNat (show c.toNat < 256 by omega), if_pos hone, Char.ofNat_toNat,
      List.length_nil]
  · have hcode : (0xC0 + c.toNat / 64) % 32 * 64 + c.toNat % 64 = c.toNat := by omega
    simp only [toNat_ofNat (show 0xC0 + c.toNat / 64 < 256 by omega), List.cons_append,
      isContinuation_continuation, payload_continuation, hcode, if_true]
    rw [if_neg (by omega), if_neg (by omega), if_pos (by omega), scalar?_toNat c (by omega)]
    rfl
  · have hcode : ((0xE0 + c.toNat / 4096) % 16 * 64 + c.toNat / 64 % 64) * 64 + c.toNat % 64 =
        c.toNat := by omega
    simp only [toNat_ofNat (show 0xE0 + c.toNat / 4096 < 256 by omega), List.cons_append,
      isContinuation_continuation, payload_continuation, hcode, Bool.and_self, if_true]
    rw [if_neg (by omega), if_neg (by omega), if_neg (by omega), if_pos (by omega),
      scalar?_toNat c (by omega)]
    rfl
  · have hcode : (((0xF0 + c.toNat / 262144) % 8 * 64 + c.toNat / 4096 % 64) * 64 +
        c.toNat / 64 % 64) * 64 + c.toNat % 64 = c.toNat := by omega
    simp only [toNat_ofNat (show 0xF0 + c.toNat / 262144 < 256 by omega), List.cons_append,
      isContinuation_continuation, payload_continuation, hcode, Bool.and_self, if_true]
    rw [if_neg (by omega), if_neg (by omega), if_neg (by omega), if_neg (by omega),
      if_pos (by omega), scalar?_toNat c (by omega)]
    rfl

/-- What is read as a character are the octets that the character is written with. -/
theorem leading?_eq_some {lead : UInt8} {rest : Octets} {c : Char} {count : Nat}
    (hlead : leading? lead rest = some (c, count)) :
    ∃ more after, rest = more ++ after ∧ more.length = count ∧ encodeChar c = lead :: more := by
  have hoctet : lead.toNat < 256 := lead.toNat_lt
  unfold leading? at hlead
  dsimp only at hlead
  split_ifs at hlead with hone hnone htwo hthree hfour
  · obtain ⟨rfl, rfl⟩ := Prod.mk.inj (Option.some.inj hlead)
    have hcode : (Char.ofNat lead.toNat).toNat = lead.toNat :=
      toNat_char (by unfold Nat.isValidChar; omega)
    refine ⟨[], rest, rfl, rfl, ?_⟩
    rw [encodeChar, hcode, if_pos hone, UInt8.ofNat_toNat]
  · split at hlead
    next b after =>
      split at hlead
      next hb =>
        obtain ⟨d, hscalar, hpair⟩ := Option.map_eq_some_iff.mp hlead
        obtain ⟨rfl, rfl⟩ := Prod.mk.inj hpair
        obtain ⟨hleast, hcode⟩ := scalar?_eq_some hscalar
        have hb' := isContinuation_iff.mp hb
        rw [payload] at hleast hcode
        refine ⟨[b], after, rfl, rfl, ?_⟩
        rw [encodeChar, hcode, if_neg (by omega), if_pos (by omega),
          ofNat_eq lead (by omega), ofNat_eq b (by omega)]
      next => cases hlead
    next => cases hlead
  · split at hlead
    next b d after =>
      split at hlead
      next hcontinued =>
        obtain ⟨e, hscalar, hpair⟩ := Option.map_eq_some_iff.mp hlead
        obtain ⟨rfl, rfl⟩ := Prod.mk.inj hpair
        obtain ⟨hleast, hcode⟩ := scalar?_eq_some hscalar
        obtain ⟨hb, hd⟩ := Bool.and_eq_true_iff.mp hcontinued
        rw [isContinuation_iff] at hb hd
        simp only [payload] at hleast hcode
        refine ⟨[b, d], after, rfl, rfl, ?_⟩
        rw [encodeChar, hcode, if_neg (by omega), if_neg (by omega), if_pos (by omega),
          ofNat_eq lead (by omega), ofNat_eq b (by omega),
          ofNat_eq d (by omega)]
      next => cases hlead
    next => cases hlead
  · split at hlead
    next b d e after =>
      split at hlead
      next hcontinued =>
        obtain ⟨f, hscalar, hpair⟩ := Option.map_eq_some_iff.mp hlead
        obtain ⟨rfl, rfl⟩ := Prod.mk.inj hpair
        obtain ⟨hleast, hcode⟩ := scalar?_eq_some hscalar
        obtain ⟨hcontinued, he⟩ := Bool.and_eq_true_iff.mp hcontinued
        obtain ⟨hb, hd⟩ := Bool.and_eq_true_iff.mp hcontinued
        rw [isContinuation_iff] at hb hd he
        simp only [payload] at hleast hcode
        refine ⟨[b, d, e], after, rfl, rfl, ?_⟩
        rw [encodeChar, hcode, if_neg (by omega), if_neg (by omega), if_neg (by omega),
          ofNat_eq lead (by omega), ofNat_eq b (by omega),
          ofNat_eq d (by omega), ofNat_eq e (by omega)]
      next => cases hlead
    next => cases hlead

theorem glyphsAfter_append (skipped rest : Octets) :
    glyphsAfter skipped.length (skipped ++ rest) = glyphs rest := by
  induction skipped with
  | nil => rfl
  | cons octet skipped ih => exact ih

theorem glyphs_encodeChar (c : Char) (rest : Octets) :
    glyphs (encodeChar c ++ rest) = .char c :: glyphs rest := by
  obtain ⟨lead, more, hchar, hlead⟩ := leading?_encodeChar c rest
  rw [hchar, List.cons_append, glyphs, glyphsAfter]
  simp only [hlead, glyphsAfter_append]

/-- A text is read as its characters. -/
theorem glyphs_encode (text : String) : glyphs (encode text) = text.toList.map .char := by
  unfold encode
  induction text.toList with
  | nil => rfl
  | cons c rest ih => rw [List.flatMap_cons, glyphs_encodeChar, ih, List.map_cons]

/-- A text is read back from the octets that it was written with. -/
theorem decode?_encode (text : String) : decode? (encode text) = some text := by
  rw [decode?, glyphs_encode, Glyph.text?_eq_some]

/-- Octets whose glyphs are all characters are those that the characters are written with. -/
theorem eq_encode_of_glyphs {octets : Octets} {chars : List Char}
    (hglyphs : glyphs octets = chars.map .char) : octets = chars.flatMap encodeChar := by
  induction chars generalizing octets with
  | nil =>
      cases octets with
      | nil => rfl
      | cons lead rest =>
          rw [glyphs, glyphsAfter] at hglyphs
          split at hglyphs <;> cases hglyphs
  | cons c chars ih =>
      cases octets with
      | nil => cases hglyphs
      | cons lead rest =>
          rw [glyphs, glyphsAfter] at hglyphs
          split at hglyphs
          next d count hlead =>
            obtain ⟨hchar, hrest⟩ := List.cons.inj hglyphs
            obtain rfl := Glyph.char.inj hchar
            obtain ⟨more, after, rfl, rfl, hencode⟩ := leading?_eq_some hlead
            rw [glyphsAfter_append] at hrest
            rw [List.flatMap_cons, hencode, ← ih hrest, List.cons_append]
          next => cases hglyphs

/-- Octets are read as a text exactly if they are those that the text is written with. -/
theorem decode?_eq_some_iff {octets : Octets} {text : String} :
    decode? octets = some text ↔ octets = encode text := by
  constructor
  · intro hdecode
    exact eq_encode_of_glyphs (Glyph.text?_eq_some.mp hdecode)
  · rintro rfl
    exact decode?_encode text

end Utf8

end StateCursors
