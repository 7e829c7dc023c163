import Mathlib.Data.String.Basic
import Mathlib.Tactic.SplitIfs
import Script.Text.Blank

/-!
# The order of texts by their bytes

Texts are ordered by the code points of their characters (`codePoints_lt_iff`), and the order of
their UTF-8 encodings, byte by byte, is the same (`toUTF8_lt_iff`).  The first two characters that
differ decide it: the bytes of the lesser one come before those of the other by a byte that both
have (`Encoded.precedes`), so whatever follows makes no difference.
-/

namespace Script.Text

/-! ## Lists that come before others -/

/-- The one list comes before the other by a number at a place that both have. -/
def Precedes : List Nat → List Nat → Prop
  | x :: xs, y :: ys => x < y ∨ x = y ∧ Precedes xs ys
  | _, _ => False

variable {xs ys : List Nat} {v w : Nat}

theorem Precedes.append (h : Precedes xs ys) (us vs : List Nat) :
    Precedes (xs ++ us) (ys ++ vs) := by
  fun_induction Precedes xs ys with
  | case1 x xs y ys ih => exact h.imp id fun ⟨heq, hrest⟩ => ⟨heq, ih hrest⟩
  | case2 => exact h.elim

theorem Precedes.append_left (h : Precedes xs ys) (us : List Nat) :
    Precedes (us ++ xs) (us ++ ys) := by
  induction us with
  | nil => exact h
  | cons u us ih => exact .inr ⟨rfl, ih⟩

/-! ## The bytes of one character -/

/-- A first byte and others behind it, which have six bits of a code point each.  What is left of
the code point is in the first byte, with a mark for how many there are. -/
def bytes (mark : Nat) : (others : Nat) → Nat → List Nat
  | 0, v => [v + mark]
  | others + 1, v => bytes mark others (v / 64) ++ [v % 64 + 0x80]

/-- **With as many bytes, the lesser code point comes first.** -/
theorem precedes_bytes (mark others : Nat) (h : v < w) :
    Precedes (bytes mark others v) (bytes mark others w) := by
  induction others generalizing v w with
  | zero => exact .inl (Nat.add_lt_add_right h mark)
  | succ others ih =>
    have hsplit : v / 64 < w / 64 ∨ v / 64 = w / 64 ∧ v % 64 < w % 64 := by omega
    rcases hsplit with hlt | ⟨heq, hlt⟩
    · exact (ih hlt).append _ _
    · have hlast : Precedes [v % 64 + 0x80] [w % 64 + 0x80] := .inl (Nat.add_lt_add_right hlt _)
      rw [bytes, bytes, heq]
      exact hlast.append_left _

/-- The bytes that encode a code point. -/
inductive Encoded : Nat → List Nat → Prop
  | one {v : Nat} (most : v < 0x80) : Encoded v (bytes 0 0 v)
  | two {v : Nat} (least : 0x80 ≤ v) (most : v < 0x800) : Encoded v (bytes 0xC0 1 v)
  | three {v : Nat} (least : 0x800 ≤ v) (most : v < 0x10000) : Encoded v (bytes 0xE0 2 v)
  | four {v : Nat} (least : 0x10000 ≤ v) (most : v < 0x110000) : Encoded v (bytes 0xF0 3 v)

/-- **The bytes of the lesser code point come before those of the greater.**  If there are not as
many of them, the first byte decides. -/
theorem Encoded.precedes (hv : Encoded v xs) (hw : Encoded w ys) (h : v < w) : Precedes xs ys := by
  cases hv with
  | one =>
    cases hw with
    | one => exact precedes_bytes _ _ h
    | two => exact .inl (by omega)
    | three => exact .inl (by omega)
    | four => exact .inl (by omega)
  | two =>
    cases hw with
    | one => omega
    | two => exact precedes_bytes _ _ h
    | three => exact .inl (by omega)
    | four => exact .inl (by omega)
  | three =>
    cases hw with
    | one => omega
    | two => omega
    | three => exact precedes_bytes _ _ h
    | four => exact .inl (by omega)
  | four =>
    cases hw with
    | one => omega
    | two => omega
    | three => omega
    | four => exact precedes_bytes _ _ h

theorem encoded_utf8EncodeChar (c : Char) :
    Encoded c.toNat ((String.utf8EncodeChar c).map UInt8.toNat) := by
  have hbytes : String.utf8EncodeChar c =
      if c.toNat ≤ 0x7F then [UInt8.ofNat c.toNat]
      else if c.toNat ≤ 0x7FF then
        [UInt8.ofNat (c.toNat / 64 % 32 + 0xC0), UInt8.ofNat (c.toNat % 64 + 0x80)]
      else if c.toNat ≤ 0xFFFF then
        [UInt8.ofNat (c.toNat / 4096 % 16 + 0xE0), UInt8.ofNat (c.toNat / 64 % 64 + 0x80),
          UInt8.ofNat (c.toNat % 64 + 0x80)]
      else
        [UInt8.ofNat (c.toNat / 262144 % 8 + 0xF0), UInt8.ofNat (c.toNat / 4096 % 64 + 0x80),
          UInt8.ofNat (c.toNat / 64 % 64 + 0x80), UInt8.ofNat (c.toNat % 64 + 0x80)] := rfl
  have hmost : c.toNat < 0x110000 := by
    rcases c.valid with h | ⟨-, h⟩
    · exact Nat.lt_trans h (by decide)
    · exact h
  rw [hbytes]
  generalize c.toNat = v at hmost
  split_ifs
  · simp (disch := unfold UInt8.size; omega) only [List.map_cons, List.map_nil,
      UInt8.toNat_ofNat_of_lt']
    exact .one (by omega)
  · have hfirst : v / 64 % 32 = v / 64 := by omega
    simp (disch := unfold UInt8.size; omega) only [List.map_cons, List.map_nil,
      UInt8.toNat_ofNat_of_lt', hfirst]
    exact .two (by omega) (by omega)
  · have hfirst : v / 4096 % 16 = v / 64 / 64 := by omega
    simp (disch := unfold UInt8.size; omega) only [List.map_cons, List.map_nil,
      UInt8.toNat_ofNat_of_lt', hfirst]
    exact .three (by omega) (by omega)
  · have hfirst : v / 262144 % 8 = v / 64 / 64 / 64 := by omega
    have hsecond : v / 4096 % 64 = v / 64 / 64 % 64 := by omega
    simp (disch := unfold UInt8.size; omega) only [List.map_cons, List.map_nil,
      UInt8.toNat_ofNat_of_lt', hfirst, hsecond]
    exact .four (by omega) hmost

/-! ## The bytes of a text -/

/-- Bytes are compared as numbers. -/
theorem lt_of_precedes {us vs : List UInt8}
    (h : Precedes (us.map UInt8.toNat) (vs.map UInt8.toNat)) : us < vs := by
  induction us generalizing vs with
  | nil => exact h.elim
  | cons u us ih =>
    cases vs with
    | nil => exact h.elim
    | cons v vs =>
      rcases h with hlt | ⟨heq, hrest⟩
      · exact .rel (UInt8.lt_iff_toNat_lt.mpr hlt)
      · rw [UInt8.toNat_inj.mp heq]
        exact .cons (ih hrest)

theorem flatMap_utf8EncodeChar_lt {cs ds : List Char} (h : cs < ds) :
    cs.flatMap String.utf8EncodeChar < ds.flatMap String.utf8EncodeChar := by
  induction h with
  | @nil d ds =>
    obtain ⟨u, us, hbytes⟩ := List.exists_cons_of_ne_nil (String.utf8EncodeChar_ne_nil (c := d))
    rw [List.flatMap_cons, hbytes]
    exact .nil
  | @rel c cs d ds hlt =>
    have hbytes : Precedes _ _ := (encoded_utf8EncodeChar c).precedes (encoded_utf8EncodeChar d) hlt
    rw [List.flatMap_cons, List.flatMap_cons]
    apply lt_of_precedes
    rw [List.map_append, List.map_append]
    exact hbytes.append _ _
  | @cons c cs ds _ ih =>
    rw [List.flatMap_cons, List.flatMap_cons]
    exact List.append_left_lt ih

theorem toList_toUTF8 (s : String) :
    s.toUTF8.data.toList = s.toList.flatMap String.utf8EncodeChar := by
  have hbytes : s.toUTF8 = (s.toList.flatMap String.utf8EncodeChar).toByteArray :=
    String.utf8Encode_toList.symm
  rw [hbytes, List.data_toByteArray]

/-! ## The order of texts -/

section Order

variable {s t : String}

/-- What grows with the text orders texts. -/
theorem lt_iff_of_lt {α : Type} [LT α] [Std.Asymm (α := α) (· < ·)]
    [Std.Irrefl (α := α) (· < ·)] {f : String → List α} (hf : ∀ {s t}, s < t → f s < f t) :
    f s < f t ↔ s < t := by
  constructor
  · intro h
    rcases lt_trichotomy s t with hlt | rfl | hgt
    · exact hlt
    · exact absurd h (List.lt_irrefl _)
    · exact absurd h (List.lt_asymm (hf hgt))
  · exact hf

/-- **Texts are ordered as the code points of their characters are.** -/
theorem codePoints_lt_iff : s.toList.map Char.toNat < t.toList.map Char.toNat ↔ s < t :=
  lt_iff_of_lt (f := fun s => s.toList.map Char.toNat) fun h =>
    List.map_lt (fun _ _ hlt => hlt) (String.lt_iff_toList_lt.mp h)

/-- **Texts are ordered as their bytes are.** -/
theorem toUTF8_lt_iff : s.toUTF8.data.toList < t.toUTF8.data.toList ↔ s < t := by
  rw [toList_toUTF8, toList_toUTF8]
  exact lt_iff_of_lt (f := fun s => s.toList.flatMap String.utf8EncodeChar) fun h =>
    flatMap_utf8EncodeChar_lt (String.lt_iff_toList_lt.mp h)

/-- The beginning of a text is before the whole. -/
theorem lt_of_isPrefix (h : s.toList <+: t.toList) (hne : s ≠ t) : s < t := by
  obtain ⟨rest, hrest⟩ := h
  cases rest with
  | nil => exact absurd (String.toList_inj.mp (s.toList.append_nil.symm.trans hrest)) hne
  | cons c cs =>
    have hlt : s.toList ++ [] < s.toList ++ c :: cs := List.append_left_lt .nil
    rw [hrest, List.append_nil] at hlt
    exact String.lt_iff_toList_lt.mpr hlt

end Order

end Script.Text
