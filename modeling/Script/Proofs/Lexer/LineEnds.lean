import Script.Proofs.Lexer.Partition

/-!
# Where the line of a comment ends

A comment behind two slashes ends before a carriage return or a line feed, but only a line feed
starts a new line.  So a comment hides the rest of its line if what ends it is a line feed, or a
carriage return with a line feed behind it.  Behind a carriage return that stands alone the line
goes on, and whatever follows on it is scanned: `scan_lineComment` says exactly when that happens,
and `scan_carriageReturn_shows` is the shortest source in which it does.
-/

namespace Script.Lexeme

/-- A comment to the end of the line, which begins with two slashes. -/
def IsLineComment (source : List Char) (x : Lexeme) : Prop :=
  x.token.isComment = true ∧ ['/', '/'] <+: x.slice source

/-- The characters between two lexemes. -/
def gap (source : List Char) (x y : Lexeme) : List Char :=
  (source.drop x.span.right.index).take (y.span.left.index - x.span.right.index)

theorem isLineEnd_iff {c : Char} : isLineEnd c = true ↔ c = '\r' ∨ c = '\n' := by
  simp [isLineEnd]

theorem isSpace_of_isLineEnd {c : Char} (h : isLineEnd c = true) : isSpace c = true := by
  rcases isLineEnd_iff.mp h with rfl | rfl <;> rfl

section Lexemes

variable {source : List Char} {x y : Lexeme}

theorem Spells.lineComment_text {token : Token} {text : List Char} (h : Spells token text)
    (hcomment : token.isComment = true) (hslashes : ['/', '/'] <+: text) :
    ∃ cs, text = '/' :: '/' :: cs ∧ ∀ c ∈ cs, isLineEnd c = false := by
  cases h with
  | lineComment line => exact ⟨_, rfl, line⟩
  | blockComment | openComment => simp [List.cons_prefix_cons] at hslashes
  | _ => cases hcomment

/-- A lexeme does not begin with a blank. -/
theorem Sits.exists_head (h : y.Sits source) :
    ∃ c, source[y.span.left.index]? = some c ∧ isSpace c = false := by
  obtain ⟨c, cs, hslice, hspace, -⟩ := munch_of_spells h.spelled
  refine ⟨c, ?_, hspace⟩
  have hhead : (y.slice source)[0]? = some c := by rw [hslice]; rfl
  have hpos : 0 < y.span.right.index - y.span.left.index := Nat.sub_pos_of_lt h.nonempty
  rwa [slice, List.getElem?_take_of_lt hpos, List.getElem?_drop, Nat.add_zero] at hhead

theorem Sits.drop_left (h : x.Sits source) :
    source.drop x.span.left.index = x.slice source ++ source.drop x.span.right.index := by
  have hright : x.span.left.index + (x.span.right.index - x.span.left.index) =
      x.span.right.index := Nat.add_sub_cancel' (Nat.le_of_lt h.nonempty)
  rw [← hright, ← List.drop_drop]
  exact (List.take_append_drop _ _).symm

/-- No line ends inside a line comment. -/
theorem Sits.not_isLineEnd (h : x.Sits source) (hcomment : x.IsLineComment source) :
    ∀ c ∈ x.slice source, isLineEnd c = false := by
  obtain ⟨cs, hslice, hline⟩ := h.spelled.lineComment_text hcomment.1 hcomment.2
  rw [hslice]
  exact List.forall_mem_cons.mpr ⟨rfl, List.forall_mem_cons.mpr ⟨rfl, hline⟩⟩

/-- Behind a line comment there is the end of a line, or nothing.  Any other character would make
the comment longer. -/
theorem Sits.isLineEnd_next (h : x.Sits source) (hcomment : x.IsLineComment source) {c : Char}
    (hc : source[x.span.right.index]? = some c) : isLineEnd c = true := by
  refine Decidable.byContradiction fun hnot => ?_
  obtain ⟨cs, hslice, hline⟩ := h.spelled.lineComment_text hcomment.1 hcomment.2
  have hlonger : Spells (.comment (String.ofList (cs ++ [c]))) ('/' :: '/' :: (cs ++ [c])) := by
    refine .lineComment fun d hd => ?_
    rcases List.mem_append.mp hd with hd | hd
    · exact hline d hd
    · rw [List.mem_singleton.mp hd]
      exact Bool.eq_false_iff.mpr hnot
  have hfront : '/' :: '/' :: (cs ++ [c]) <+: source.drop x.span.left.index := by
    obtain ⟨hlt, rfl⟩ := List.getElem?_eq_some_iff.mp hc
    rw [h.drop_left, hslice, List.drop_eq_getElem_cons hlt]
    exact ⟨source.drop (x.span.right.index + 1), by simp⟩
  have hle := h.longest _ _ hlonger hfront
  rw [hslice, List.length_cons, List.length_cons, List.length_append, List.length_singleton] at hle
  simp only [List.length_cons] at hle
  omega

/-- Between the starts of two lexemes there is the first of them, and the gap. -/
theorem Sits.take_left (h : x.Sits source) (hle : x.span.right.index ≤ y.span.left.index) :
    source.take y.span.left.index =
      source.take x.span.left.index ++ (x.slice source ++ gap source x y) := by
  have hx := h.nonempty
  have hgap : gap source x y = ((source.drop x.span.left.index).drop
      (x.span.right.index - x.span.left.index)).take
        (y.span.left.index - x.span.right.index) := by
    rw [gap, List.drop_drop, Nat.add_sub_cancel' (Nat.le_of_lt hx)]
  have hsum : y.span.left.index = x.span.left.index + ((x.span.right.index - x.span.left.index) +
      (y.span.left.index - x.span.right.index)) := by omega
  rw [hgap, slice, ← List.take_add, ← List.take_add, ← hsum]

/-- Behind a line comment the lines go on as the line feeds of the gap say. -/
theorem Sits.line_of_lineComment (hx : x.Sits source) (hcomment : x.IsLineComment source)
    (hy : y.span.left = .ofOffset source y.span.left.index)
    (hle : x.span.right.index ≤ y.span.left.index) :
    y.span.left.line = x.span.left.line + (gap source x y).count '\n' := by
  have hslice : (x.slice source).count '\n' = 0 := by
    refine List.count_eq_zero.mpr fun hmem => ?_
    cases hx.not_isLineEnd hcomment _ hmem
  rw [hy, hx.left]
  show (source.take y.span.left.index).count '\n' = (source.take x.span.left.index).count '\n' + _
  rw [hx.take_left hle, List.count_append, List.count_append, hslice, Nat.zero_add]

/-- A blank behind one lexeme and not behind the start of another lies between the two. -/
theorem Sits.mem_gap (hy : y.Sits source) {k : Nat} {c : Char} (hc : source[k]? = some c)
    (hspace : isSpace c = true) (hright : x.span.right.index ≤ k) (hleft : k ≤ y.span.left.index) :
    k < y.span.left.index ∧ c ∈ gap source x y := by
  obtain ⟨d, hd, hhead⟩ := hy.exists_head
  have hne : k ≠ y.span.left.index := by
    rintro rfl
    rw [hc] at hd
    cases hd
    rw [hspace] at hhead
    cases hhead
  have hlt : k < y.span.left.index := Nat.lt_of_le_of_ne hleft hne
  have hinside : k - x.span.right.index < y.span.left.index - x.span.right.index := by omega
  refine ⟨hlt, List.mem_of_getElem? (i := k - x.span.right.index) ?_⟩
  rw [gap, List.getElem?_take_of_lt hinside, List.getElem?_drop, Nat.add_sub_cancel' hright]
  exact hc

/-- The end of the line that a comment runs up to comes before every later lexeme. -/
theorem Sits.exists_lineEnd (hx : x.Sits source) (hcomment : x.IsLineComment source)
    (hy : y.Sits source) (hle : x.span.right.index ≤ y.span.left.index) :
    ∃ c, source[x.span.right.index]? = some c ∧ isLineEnd c = true ∧
      x.span.right.index < y.span.left.index ∧ c ∈ gap source x y := by
  have hlt : x.span.right.index < source.length :=
    Nat.lt_of_le_of_lt hle (Nat.lt_of_lt_of_le hy.nonempty hy.inside)
  have hc := List.getElem?_eq_getElem hlt
  have hend := hx.isLineEnd_next hcomment hc
  exact ⟨_, hc, hend, hy.mem_gap hc (isSpace_of_isLineEnd hend) (Nat.le_refl _) hle⟩

/-- A later lexeme is on the line of the comment exactly if the comment ends at a carriage return
and no line feed comes before the lexeme. -/
theorem Sits.line_eq_iff (hx : x.Sits source) (hcomment : x.IsLineComment source)
    (hy : y.Sits source) (hle : x.span.right.index ≤ y.span.left.index) :
    y.span.left.line = x.span.left.line ↔
      source[x.span.right.index]? = some '\r' ∧ '\n' ∉ gap source x y := by
  rw [hx.line_of_lineComment hcomment hy.left hle, Nat.add_eq_left, List.count_eq_zero]
  refine ⟨fun hfree => ⟨?_, hfree⟩, And.right⟩
  obtain ⟨c, hc, hend, -, hmem⟩ := hx.exists_lineEnd hcomment hy hle
  rcases isLineEnd_iff.mp hend with rfl | rfl
  · exact hc
  · exact absurd hmem hfree

/-- If a line feed stands behind every carriage return, each later lexeme is on a later line. -/
theorem Sits.line_lt (hx : x.Sits source) (hcomment : x.IsLineComment source) (hy : y.Sits source)
    (hle : x.span.right.index ≤ y.span.left.index)
    (hpaired : ∀ k, source[k]? = some '\r' → source[k + 1]? = some '\n') :
    x.span.left.line < y.span.left.line := by
  rw [hx.line_of_lineComment hcomment hy.left hle]
  refine Nat.lt_add_of_pos_right (List.count_pos_iff.mpr ?_)
  obtain ⟨c, hc, hend, hlt, hmem⟩ := hx.exists_lineEnd hcomment hy hle
  rcases isLineEnd_iff.mp hend with rfl | rfl
  · exact (hy.mem_gap (hpaired _ hc) rfl (Nat.le_succ _) hlt).2
  · exact hmem

end Lexemes

section Scanned

variable {source : String} {lexemes : List Lexeme}

/-- All lexemes but the end of the file sit in the source. -/
theorem sits_of_scan (h : scan source = .ok lexemes) :
    ∀ x ∈ lexemes, x.token ≠ .endOfFile → x.Sits source.toList := by
  obtain ⟨tokens, rfl, hcut⟩ := (scans_of_scan h).cut_start
  intro x hx hne
  rcases List.mem_append.mp hx with hx | hx
  · exact hcut.sits x hx
  · exact absurd (congrArg token (List.mem_singleton.mp hx)) hne

/-- What holds of two lexemes that sit one behind the other holds of each lexeme and every later
token. -/
theorem pairwise_of_scan (h : scan source = .ok lexemes) {R : Lexeme → Lexeme → Prop}
    (hR : ∀ x y, x.Sits source.toList → y.Sits source.toList →
      x.span.right.index ≤ y.span.left.index → R x y) :
    lexemes.Pairwise fun x y => y.token ≠ .endOfFile → R x y := by
  obtain ⟨tokens, rfl, hcut⟩ := (scans_of_scan h).cut_start
  refine List.pairwise_append.mpr ⟨?_, List.pairwise_singleton _ _, ?_⟩
  · exact hcut.ordered.imp_of_mem fun {x y} hx hy hle _ =>
      hR x y (hcut.sits x hx) (hcut.sits y hy) hle
  · intro x _ y hy hne
    exact absurd (congrArg token (List.mem_singleton.mp hy)) hne

/-- **A line comment runs up to a carriage return or a line feed.**  It holds neither, and one of
them, or nothing, stands behind it.  A later token is on its line exactly if the comment ends at a
carriage return and there is no line feed between the two.  So in a source that has a line feed
behind every carriage return, all that comes behind the comment is on later lines. -/
theorem scan_lineComment (h : scan source = .ok lexemes) :
    (∀ x ∈ lexemes, x.IsLineComment source.toList →
      (∀ c ∈ x.slice source.toList, c ≠ '\r' ∧ c ≠ '\n') ∧
      ∀ c, source.toList[x.span.right.index]? = some c → c = '\r' ∨ c = '\n') ∧
    (lexemes.Pairwise fun x y => y.token ≠ .endOfFile → x.IsLineComment source.toList →
      (y.span.left.line = x.span.left.line ↔
        source.toList[x.span.right.index]? = some '\r' ∧ '\n' ∉ gap source.toList x y)) ∧
    ((∀ k, source.toList[k]? = some '\r' → source.toList[k + 1]? = some '\n') →
      lexemes.Pairwise fun x y => y.token ≠ .endOfFile → x.IsLineComment source.toList →
        x.span.left.line < y.span.left.line) := by
  refine ⟨fun x hx hcomment => ?_, pairwise_of_scan h ?_, fun hpaired => pairwise_of_scan h ?_⟩
  · have hne : x.token ≠ .endOfFile := by
      intro heq
      rw [IsLineComment, heq] at hcomment
      cases hcomment.1
    have hsits := sits_of_scan h x hx hne
    refine ⟨fun c hc => ?_, fun c hc => isLineEnd_iff.mp (hsits.isLineEnd_next hcomment hc)⟩
    simpa [isLineEnd] using hsits.not_isLineEnd hcomment c hc
  · exact fun x y hx hy hle hcomment => hx.line_eq_iff hcomment hy hle
  · exact fun x y hx hy hle hcomment => hx.line_lt hcomment hy hle hpaired

/-- A line feed behind the carriage return ends the line of the comment. -/
theorem scan_lineComment_paired :
    ∃ lexemes, scan "//a\r\nb" = .ok lexemes ∧
      lexemes.map token = [.comment "a", .identifier "b", .endOfFile] ∧
      lexemes.Pairwise fun x y => y.token ≠ .endOfFile →
        x.IsLineComment "//a\r\nb".toList → x.span.left.line < y.span.left.line := by
  have hsource : "//a\r\nb".toList = ['/', '/', 'a', '\r', '\n', 'b'] := rfl
  have hcomment : munch '/' ['/', 'a', '\r', '\n', 'b'] =
      .ok ⟨.comment "a", ['/', '/', 'a'], ['\r', '\n', 'b']⟩ := rfl
  have hb : munch 'b' [] = .ok ⟨.identifier "b", ['b'], []⟩ := rfl
  have h : scan "//a\r\nb" = .ok [⟨.comment "a", ⟨⟨0, 0, 0⟩, ⟨3, 0, 3⟩⟩⟩,
      ⟨.identifier "b", ⟨⟨5, 1, 0⟩, ⟨6, 1, 1⟩⟩⟩, ⟨.endOfFile, ⟨⟨6, 1, 1⟩, ⟨6, 1, 1⟩⟩⟩] := by
    rw [scan, hsource, scanFrom_munch rfl hcomment, scanFrom_space rfl, scanFrom_space rfl,
      scanFrom_munch rfl hb, scanFrom]
    rfl
  refine ⟨_, h, rfl, (scan_lineComment h).2.2 fun k hk => ?_⟩
  rw [hsource] at hk ⊢
  rcases k with _ | _ | _ | _ | _ | _ | k
  · exact absurd hk (by decide)
  · exact absurd hk (by decide)
  · exact absurd hk (by decide)
  · rfl
  · exact absurd hk (by decide)
  · exact absurd hk (by decide)
  · cases hk

/-- Behind a carriage return that stands alone a token shows on the line of the comment. -/
theorem scan_carriageReturn_shows :
    ∃ lexemes, scan "//\ra" = .ok lexemes ∧
      ¬ lexemes.Pairwise fun x y => y.token ≠ .endOfFile →
        x.IsLineComment "//\ra".toList → y.span.left.line ≠ x.span.left.line := by
  have hsource : "//\ra".toList = ['/', '/', '\r', 'a'] := rfl
  have hcomment : munch '/' ['/', '\r', 'a'] = .ok ⟨.comment "", ['/', '/'], ['\r', 'a']⟩ := rfl
  have ha : munch 'a' [] = .ok ⟨.identifier "a", ['a'], []⟩ := rfl
  have h : scan "//\ra" = .ok [⟨.comment "", ⟨⟨0, 0, 0⟩, ⟨2, 0, 2⟩⟩⟩,
      ⟨.identifier "a", ⟨⟨3, 0, 3⟩, ⟨4, 0, 4⟩⟩⟩, ⟨.endOfFile, ⟨⟨4, 0, 4⟩, ⟨4, 0, 4⟩⟩⟩] := by
    rw [scan, hsource, scanFrom_munch rfl hcomment, scanFrom_space rfl, scanFrom_munch rfl ha,
      scanFrom]
    rfl
  refine ⟨_, h, fun hpairwise => ?_⟩
  have hfirst := (List.pairwise_cons.mp hpairwise).1 _ List.mem_cons_self
  have hshows : Token.identifier "a" ≠ .endOfFile := by rintro ⟨⟩
  exact hfirst hshows ⟨rfl, [], rfl⟩ rfl

end Scanned

end Script.Lexeme
