import Mathlib
import Segarecomp.Media.DeflateFormat
import Segarecomp.Media.InflateReader

/-! The inflater decodes every RFC 1951 stream whose dynamic blocks have at most 30 distance
codes. -/

namespace Segarecomp.Media.Inflate

open Lib Lib.Bits DeflateFormat

variable {input : List Byte} {expected : ℕ}

/-! Compressed blocks. -/

theorem length_table : ∀ k : Fin 29, lext.getD k 0 = lengthExtraBits k ∧ lbase.getD k 0 = lengthBase k := by
  decide

theorem distance_table : ∀ k : Fin 30, dext.getD k 0 = distanceExtraBits k ∧ dbase.getD k 0 = distanceBase k := by
  decide

theorem extra_narrow : (∀ k : Fin 29, lengthExtraBits k ≤ 24) ∧ ∀ k : Fin 30, distanceExtraBits k ≤ 24 := by
  decide

theorem distanceBase_pos (k : Fin 30) : 0 < distanceBase k := by
  revert k
  decide

theorem mod_step {i d : ℕ} (past : d ≤ i) : (i - d) % d = i % d := (Nat.mod_eq_sub_mod past).symm

/-- Pushing one byte at a time from `d` back repeats the last `d` bytes. -/
theorem grow_eq_copyBack (out : List Byte) {d : ℕ} (positive : 0 < d) (inside : d ≤ out.length) (n : ℕ) :
    Overlap.grow (fun out _ => out.getD (out.length - d) 0) out n = copyBack out d n := by
  induction n with
  | zero => simp [Overlap.grow, copyBack]
  | succ n ih =>
      have value : (copyBack out d n).getD ((copyBack out d n).length - d) 0 =
          out.getD (out.length - d + n % d) 0 := by
        have length : (copyBack out d n).length = out.length + n := by simp [copyBack]
        rw [length, copyBack, List.getD_eq_getElem?_getD]
        by_cases first : n < d
        · rw [List.getElem?_append_left (by omega), ← List.getD_eq_getElem?_getD, Nat.mod_eq_of_lt first]
          congr 1
          omega
        · rw [List.getElem?_append_right (by omega), List.getElem?_map,
            List.getElem?_range (by omega), Option.map_some, Option.getD_some]
          have index : out.length + n - d - out.length = n - d := by omega
          rw [index, mod_step (by omega)]
      rw [Overlap.grow, ih, value, copyBack, copyBack, List.range_succ, List.map_append, List.append_assoc]
      rfl

theorem Token.denote_length {token : Token} {out out' : List Byte} (ok : token.denote out = some out') :
    out.length ≤ out'.length := by
  cases token with
  | literal b =>
      injection ok with same
      simp [← same]
  | copy l le d de =>
      simp only [Token.denote] at ok
      split at ok
      · injection ok with same
        simp [← same, copyBack]
      · cases ok

theorem denoteTokens_length {tokens : List Token} {out out' : List Byte}
    (ok : denoteTokens out tokens = some out') : out.length ≤ out'.length := by
  induction tokens generalizing out with
  | nil =>
      injection ok with same
      rw [same]
  | cons token tokens ih =>
      rcases Option.bind_eq_some_iff.mp ok with ⟨middle, first, rest⟩
      exact Nat.le_trans (Token.denote_length first) (ih rest)

theorem codeword_length {lengths : List ℕ} {s : ℕ} {word : List Bool}
    (coded : Canonical.codeword lengths s = some word) : 0 < word.length := by
  unfold Canonical.codeword at coded
  split at coded
  · cases coded
  · next used =>
      injection coded with same
      rw [← same, msb_length]
      omega

/-- One code table pair and the lengths it was built from. -/
structure Tables (litLengths distLengths : List ℕ) (lit dist : Huff) : Prop where
  lit_built : Built litLengths lit
  dist_built : Built distLengths dist
  lit_permitted : Canonical.Permitted 15 litLengths
  dist_permitted : Canonical.Permitted 15 distLengths

theorem Reads.append {s : Inflater} {rest : List Bool} (reads : Reads input s rest) (out : List Byte) :
    Reads input { s with out } rest :=
  ⟨⟨reads.live, reads.small, reads.view, reads.inside⟩, reads.short⟩

theorem end_round {litLengths distLengths : List ℕ} {lit dist : Huff}
    (tables : Tables litLengths distLengths lit dist) {word : List Bool}
    (coded : Canonical.codeword litLengths 256 = some word) {s : Inflater} {rest : List Bool}
    (reads : Reads input s (word ++ rest)) :
    ∃ t, blockRound input expected lit dist s = .leaves t ∧ Reads input t rest ∧ t.out = s.out := by
  rcases decode_spec tables.lit_built tables.lit_permitted (Nat.le_refl _) coded reads with
    ⟨t, found, after, kept⟩
  exact ⟨t, by simp [blockRound, found], after, kept⟩

theorem literal_round {litLengths distLengths : List ℕ} {lit dist : Huff}
    (tables : Tables litLengths distLengths lit dist) {b : Byte} {word : List Bool}
    (coded : Canonical.codeword litLengths b.toNat = some word) {s : Inflater} {rest : List Bool}
    (reads : Reads input s (word ++ rest)) (room : s.out.length < expected) :
    ∃ t, blockRound input expected lit dist s = .continues t ∧ Reads input t rest ∧ t.out = s.out ++ [b] := by
  rcases decode_spec tables.lit_built tables.lit_permitted (Nat.le_refl _) coded reads with
    ⟨t, found, after, kept⟩
  have open_ : ¬ t.out.length ≥ expected := by
    rw [kept]
    omega
  refine ⟨{ t with out := t.out ++ [b] }, ?_, after.append _, ?_⟩
  · simp [blockRound, found, b.isLt, open_]
  · rw [kept]

theorem copy_round {litLengths distLengths : List ℕ} {lit dist : Huff}
    (tables : Tables litLengths distLengths lit dist) {l : Fin 29} {le : Fin (2 ^ lengthExtraBits l)}
    {d : Fin 30} {de : Fin (2 ^ distanceExtraBits d)} {word : List Bool}
    (coded : (Token.copy l le d de).bits litLengths distLengths = some word) {s : Inflater} {rest : List Bool}
    (reads : Reads input s (word ++ rest)) {out : List Byte}
    (denoted : (Token.copy l le d de).denote s.out = some out) (fits : out.length ≤ expected) :
    ∃ t, blockRound input expected lit dist s = .continues t ∧ Reads input t rest ∧ t.out = out := by
  simp only [Token.bits, Option.bind_eq_bind, Option.bind_eq_some_iff] at coded
  rcases coded with ⟨lengthWord, codedLength, distWord, codedDist, same⟩
  injection same with same
  subst same
  simp only [List.append_assoc] at reads
  rcases decode_spec tables.lit_built tables.lit_permitted (Nat.le_refl _) codedLength reads with
    ⟨t, foundLength, afterLength, keptLength⟩
  rcases bits_spec afterLength le.isLt (extra_narrow.1 l) with ⟨u, readLength, afterExtra, keptExtra⟩
  rcases decode_spec tables.dist_built tables.dist_permitted (Nat.le_refl _) codedDist afterExtra with
    ⟨v, foundDist, afterDist, keptDist⟩
  rcases bits_spec afterDist de.isLt (extra_narrow.2 d) with ⟨w, readDist, done, keptLast⟩
  have kept : w.out = s.out := by rw [keptLast, keptDist, keptExtra, keptLength]
  simp only [Token.denote] at denoted
  split at denoted
  · next inside =>
      injection denoted with same
      have positive : 0 < distanceBase d + de.val := Nat.add_pos_left (distanceBase_pos d) _
      have size : out.length = s.out.length + (lengthBase l + le.val) := by simp [← same, copyBack]
      refine ⟨{ w with out := out }, ?_, done.append _, rfl⟩
      have notLiteral : ¬ 257 + l.val < 256 := by omega
      have notEnd : ¬ 257 + l.val = 256 := by omega
      have legal : ¬ l.val ≥ 29 := by
        have below := l.isLt
        omega
      have index : 257 + l.val - 257 = l.val := Nat.add_sub_cancel_left _ _
      have legalDist : ¬ d.val ≥ 30 := by
        have below := d.isLt
        omega
      have sound : ¬ (w.failed ∨ distanceBase d + de.val > w.out.length ∨
          lengthBase l + le.val > expected - w.out.length) := by
        rw [done.live, kept]
        simp only [Bool.false_eq_true, false_or]
        omega
      simp only [blockRound, foundLength, notLiteral, notEnd, legal, if_false, index, copyRound,
        (length_table l).1, (length_table l).2, readLength, foundDist, legalDist, (distance_table d).1,
        (distance_table d).2, readDist, sound]
      rw [grow_eq_copyBack _ positive (by rw [kept]; exact inside), kept, same]
  · cases denoted

theorem block_spec {litLengths distLengths : List ℕ} {lit dist : Huff}
    (tables : Tables litLengths distLengths lit dist) {tokens : List Token} {body : List Bool}
    (coded : bodyBits litLengths distLengths tokens = some body) {s : Inflater} {rest : List Bool} {out : List Byte}
    (reads : Reads input s (body ++ rest)) (denoted : denoteTokens s.out tokens = some out)
    (fits : out.length ≤ expected) {room : ℕ} (enough : tokens.length < room) :
    ∃ t, block input expected lit dist room s = some t ∧ Reads input t rest ∧ t.out = out := by
  induction tokens generalizing body s room with
  | nil =>
      cases room with
      | zero => omega
      | succ room =>
          have round : ∃ t, blockRound input expected lit dist s = .leaves t ∧ Reads input t rest ∧
              t.out = s.out := end_round tables coded reads
          rcases round with ⟨t, round, after, kept⟩
          injection denoted with same
          exact ⟨t, by rw [block, round], after, kept.trans same⟩
  | cons token tokens ih =>
      simp only [bodyBits, Option.bind_eq_bind, Option.bind_eq_some_iff] at coded
      rcases coded with ⟨first, codedFirst, more, codedMore, same⟩
      injection same with same
      subst same
      rcases Option.bind_eq_some_iff.mp denoted with ⟨middle, denotedFirst, denotedMore⟩
      have longer := denoteTokens_length denotedMore
      rw [List.append_assoc] at reads
      have round : ∃ t, blockRound input expected lit dist s = .continues t ∧ Reads input t (more ++ rest) ∧
          t.out = middle := by
        cases token with
        | literal b =>
            injection denotedFirst with same
            subst same
            rw [List.length_append, List.length_singleton] at longer
            exact literal_round tables codedFirst reads (by omega)
        | copy l le d de => exact copy_round tables codedFirst reads denotedFirst (by omega)
      cases room with
      | zero => omega
      | succ room =>
          rcases round with ⟨t, round, after, kept⟩
          rw [List.length_cons] at enough
          rw [← kept] at denotedMore
          rw [block, round]
          exact ih codedMore after denotedMore (by omega)

theorem bodyBits_length {litLengths distLengths : List ℕ} {tokens : List Token} {body : List Bool}
    (coded : bodyBits litLengths distLengths tokens = some body) : tokens.length < body.length := by
  induction tokens generalizing body with
  | nil => exact codeword_length coded
  | cons token tokens ih =>
      simp only [bodyBits, Option.bind_eq_bind, Option.bind_eq_some_iff] at coded
      rcases coded with ⟨first, codedFirst, more, codedMore, same⟩
      injection same with same
      have later := ih codedMore
      have here : 0 < first.length := by
        cases token with
        | literal b => exact codeword_length codedFirst
        | copy l le d de =>
            simp only [Token.bits, Option.bind_eq_bind, Option.bind_eq_some_iff] at codedFirst
            rcases codedFirst with ⟨word, codedLength, _, _, whole⟩
            injection whole with whole
            have positive := codeword_length codedLength
            rw [← whole]
            simp only [List.length_append]
            omega
      rw [← same, List.length_append, List.length_cons]
      omega

theorem huffmanBlock_spec {litLengths distLengths : List ℕ} (lit : Canonical.Permitted 15 litLengths)
    (dist : Canonical.Permitted 15 distLengths) (fewLit : litLengths.length ≤ 320) (fewDist : distLengths.length ≤ 320)
    {tokens : List Token} {body : List Bool} (coded : bodyBits litLengths distLengths tokens = some body)
    {s : Inflater} {rest : List Bool} {out : List Byte} (reads : Reads input s (body ++ rest))
    (denoted : denoteTokens s.out tokens = some out) (fits : out.length ≤ expected) {room : ℕ}
    (enough : body.length ≤ room) :
    ∃ t, huffmanBlock input expected room litLengths distLengths s = some t ∧ Reads input t rest ∧ t.out = out := by
  rcases build_spec lit (Nat.le_refl _) fewLit with ⟨litTable, litBuild, litBuilt⟩
  rcases build_spec dist (Nat.le_refl _) fewDist with ⟨distTable, distBuild, distBuilt⟩
  have symbols := bodyBits_length coded
  rw [huffmanBlock, litBuild, distBuild]
  exact block_spec ⟨litBuilt, distBuilt, lit, dist⟩ coded reads denoted fits (by omega)

/-! The code lengths of a dynamic block. -/

theorem Item.expand_grows {item : Item} {lens more : List ℕ} (ok : item.expand lens = some more) :
    ∃ n v, 0 < n ∧ more = lens ++ List.replicate n v := by
  cases item with
  | single l =>
      injection ok with same
      exact ⟨1, l.val, by decide, same.symm⟩
  | repeatPrevious extra =>
      rcases Option.map_eq_some_iff.mp ok with ⟨last, _, same⟩
      exact ⟨_, _, Nat.add_pos_left (by decide) _, same.symm⟩
  | zeros extra =>
      injection ok with same
      exact ⟨_, _, Nat.add_pos_left (by decide) _, same.symm⟩
  | manyZeros extra =>
      injection ok with same
      exact ⟨_, _, Nat.add_pos_left (by decide) _, same.symm⟩

theorem expandItems_length {items : List Item} {lens all : List ℕ} (ok : expandItems lens items = some all) :
    lens.length ≤ all.length := by
  induction items generalizing lens with
  | nil =>
      injection ok with same
      rw [same]
  | cons item items ih =>
      rcases Option.bind_eq_some_iff.mp ok with ⟨middle, first, rest⟩
      rcases Item.expand_grows first with ⟨n, v, _, rfl⟩
      have later := ih rest
      rw [List.length_append] at later
      omega

theorem repeat_step {clh : Huff} {total sym base width extra v : ℕ} {lens : List ℕ} {s t : Inflater}
    {rest : List Bool} (room : ℕ) (open_ : lens.length < total) (found : decode input clh s = some (sym, t))
    (special : 16 ≤ sym) (shape : (if sym = 16 then (3, 2) else if sym = 17 then (3, 3) else (11, 7)) = (base, width))
    (known : sym = 16 → lens.length ≠ 0)
    (value : (if sym = 16 then lens.getD (lens.length - 1) 0 else 0) = v)
    (reads : Reads input t (lsb width extra ++ rest)) (narrow : extra < 2 ^ width) (small : width ≤ 24)
    (fits : lens.length + (base + extra) ≤ total) :
    ∃ u, readLengths input clh total (room + 1) lens s =
        readLengths input clh total room (lens ++ List.replicate (base + extra) v) u ∧
      Reads input u rest ∧ u.out = t.out := by
  rcases bits_spec reads narrow small with ⟨u, read, after, kept⟩
  refine ⟨u, ?_, after, kept⟩
  have notDone : ¬ lens.length ≥ total := by omega
  have notSingle : ¬ sym < 16 := by omega
  have notFirst : ¬ (sym = 16 ∧ lens.length = 0) := fun both => known both.1 both.2
  have inside : ¬ (u.failed = true ∨ lens.length + (base + extra) > total) := by
    rw [after.live]
    simp only [Bool.false_eq_true, false_or]
    omega
  rw [readLengths]
  simp only [notDone, found, notSingle, notFirst, if_false, shape, read, value, inside]

theorem item_step {cl : List ℕ} {clh : Huff} (built : Built cl clh) (permitted : Canonical.Permitted 7 cl)
    {item : Item} {word : List Bool} (coded : item.bits cl = some word) {lens more : List ℕ}
    (expanded : item.expand lens = some more) {total : ℕ} (fits : more.length ≤ total) {s : Inflater}
    {rest : List Bool} (reads : Reads input s (word ++ rest)) (room : ℕ) :
    ∃ t, readLengths input clh total (room + 1) lens s = readLengths input clh total room more t ∧
      Reads input t rest ∧ t.out = s.out := by
  rcases Item.expand_grows expanded with ⟨n, v, positive, grown⟩
  have open_ : lens.length < total := by
    rw [grown, List.length_append, List.length_replicate] at fits
    omega
  cases item with
  | single l =>
      rcases decode_spec built permitted (by decide) coded reads with ⟨t, found, after, kept⟩
      injection expanded with same
      subst same
      have notDone : ¬ lens.length ≥ total := by omega
      refine ⟨t, ?_, after, kept⟩
      rw [readLengths]
      simp only [notDone, found, l.isLt, if_false, if_true]
  | repeatPrevious extra =>
      rcases Option.map_eq_some_iff.mp coded with ⟨symbol, codedSymbol, rfl⟩
      rcases Option.map_eq_some_iff.mp expanded with ⟨last, previous, rfl⟩
      rw [List.append_assoc] at reads
      rcases decode_spec built permitted (by decide) codedSymbol reads with ⟨t, found, after, kept⟩
      have nonempty : lens.length ≠ 0 := by
        intro empty
        rw [List.length_eq_zero_iff.mp empty] at previous
        cases previous
      have value : lens.getD (lens.length - 1) 0 = last := by
        rw [List.getLast?_eq_getElem?] at previous
        rw [List.getD_eq_getElem?_getD, previous]
        rfl
      rw [List.length_append, List.length_replicate] at fits
      rcases repeat_step room open_ found (Nat.le_refl 16) rfl (fun _ => nonempty) value after extra.isLt
        (by decide) fits with ⟨u, step, done, kept'⟩
      exact ⟨u, step, done, kept'.trans kept⟩
  | zeros extra | manyZeros extra =>
      rcases Option.map_eq_some_iff.mp coded with ⟨symbol, codedSymbol, rfl⟩
      injection expanded with same
      subst same
      rw [List.append_assoc] at reads
      rcases decode_spec built permitted (by decide) codedSymbol reads with ⟨t, found, after, kept⟩
      rw [List.length_append, List.length_replicate] at fits
      rcases repeat_step room open_ found (by decide) rfl (fun same => absurd same (by decide)) rfl after extra.isLt
        (by decide) fits with ⟨u, step, done, kept'⟩
      exact ⟨u, step, done, kept'.trans kept⟩

theorem readLengths_spec {cl : List ℕ} {clh : Huff} (built : Built cl clh) (permitted : Canonical.Permitted 7 cl)
    {items : List Item} {body : List Bool} (coded : itemsBits cl items = some body) {lens all : List ℕ}
    (expanded : expandItems lens items = some all) {s : Inflater} {rest : List Bool}
    (reads : Reads input s (body ++ rest)) {room : ℕ} (enough : items.length < room) :
    ∃ t, readLengths input clh all.length room lens s = some (all, t) ∧ Reads input t rest ∧ t.out = s.out := by
  induction items generalizing body lens s room with
  | nil =>
      cases room with
      | zero => omega
      | succ room =>
          injection expanded with same
          injection coded with empty
          subst same
          subst empty
          exact ⟨s, by rw [readLengths, if_pos (Nat.le_refl _)], reads, rfl⟩
  | cons item items ih =>
      simp only [itemsBits, Option.bind_eq_bind, Option.bind_eq_some_iff] at coded
      rcases coded with ⟨first, codedFirst, more, codedMore, same⟩
      injection same with same
      subst same
      rcases Option.bind_eq_some_iff.mp expanded with ⟨middle, expandedFirst, expandedMore⟩
      rw [List.append_assoc] at reads
      cases room with
      | zero => omega
      | succ room =>
          rcases item_step built permitted codedFirst expandedFirst (expandItems_length expandedMore) reads room with
            ⟨t, step, after, kept⟩
          have left : items.length < room := by simpa using enough
          rcases ih codedMore expandedMore after left with ⟨u, ran, done, kept'⟩
          exact ⟨u, step.trans ran, done, kept'.trans kept⟩

theorem itemsBits_length {cl : List ℕ} {items : List Item} {body : List Bool}
    (coded : itemsBits cl items = some body) : items.length ≤ body.length := by
  induction items generalizing body with
  | nil => exact Nat.zero_le _
  | cons item items ih =>
      simp only [itemsBits, Option.bind_eq_bind, Option.bind_eq_some_iff] at coded
      rcases coded with ⟨first, codedFirst, more, codedMore, same⟩
      injection same with same
      have later := ih codedMore
      have extended : ∀ {symbol : ℕ} {tail : List Bool},
          (Canonical.codeword cl symbol).map (· ++ tail) = some first → 0 < first.length := by
        intro symbol tail mapped
        rcases Option.map_eq_some_iff.mp mapped with ⟨word, codedSymbol, whole⟩
        have positive := codeword_length codedSymbol
        rw [← whole, List.length_append]
        omega
      have here : 0 < first.length := by
        cases item with
        | single l => exact codeword_length codedFirst
        | repeatPrevious extra => exact extended codedFirst
        | zeros extra => exact extended codedFirst
        | manyZeros extra => exact extended codedFirst
      rw [← same, List.length_append, List.length_cons]
      omega

theorem readOrder_spec {written : List (Fin 8)} {slots : List ℕ} (cl : List ℕ) {s : Inflater} {rest : List Bool}
    (pairs : slots.length = written.length) (reads : Reads input s (written.flatMap (fun l : Fin 8 => lsb 3 l.val) ++ rest)) :
    ∃ t, readOrder input slots cl s =
        ((slots.zip (written.map Fin.val)).foldl (fun cl slot => cl.set slot.1 slot.2) cl, t) ∧
      Reads input t rest ∧ t.out = s.out := by
  induction written generalizing slots cl s with
  | nil =>
      rw [List.length_nil, List.length_eq_zero_iff] at pairs
      subst pairs
      exact ⟨s, rfl, reads, rfl⟩
  | cons l written ih =>
      cases slots with
      | nil => simp at pairs
      | cons slot slots =>
          rw [List.flatMap_cons, List.append_assoc] at reads
          rcases bits_spec reads l.isLt (by decide) with ⟨t, read, after, kept⟩
          rcases ih _ (by simpa using pairs) after with ⟨u, ran, done, kept'⟩
          refine ⟨u, ?_, done, kept'.trans kept⟩
          rw [readOrder, read]
          exact ran

theorem scatter_spec {slots : List ℕ} (values start : List ℕ) (distinct : slots.Nodup) (pairs : slots.length = values.length)
    (inside : ∀ slot ∈ slots, slot < start.length) :
    ((slots.zip values).foldl (fun cl slot => cl.set slot.1 slot.2) start).length = start.length ∧
      ∀ s, ((slots.zip values).foldl (fun cl slot => cl.set slot.1 slot.2) start).getD s 0 =
        if s ∈ slots then values.getD (slots.idxOf s) 0 else start.getD s 0 := by
  induction slots generalizing values start with
  | nil => simp
  | cons slot slots ih =>
      cases values with
      | nil => simp at pairs
      | cons v values =>
          rw [List.nodup_cons] at distinct
          rcases ih values (start.set slot v) distinct.2 (by simpa using pairs) (by
            intro other member
            rw [List.length_set]
            exact inside other (List.mem_cons_of_mem _ member)) with ⟨length, value⟩
          rw [List.zip_cons_cons, List.foldl_cons]
          refine ⟨by rw [length, List.length_set], ?_⟩
          intro s
          rw [value, getD_set]
          by_cases here : slot = s
          · subst here
            have first := inside slot (List.mem_cons_self ..)
            simp [distinct.1, first]
          · have other : ¬ s = slot := fun same => here same.symm
            simp [here, other, List.idxOf_cons_ne _ here]

theorem codeLengths_eq (h : DynamicHeader) :
    ((order.take h.written.length).zip (h.written.map Fin.val)).foldl (fun cl slot => cl.set slot.1 slot.2)
      (List.replicate 19 0) = h.codeLengths := by
  have size : (order.take h.written.length).length = h.written.length := by
    rw [List.length_take]
    exact Nat.min_eq_left h.written_high
  have distinct : order.Nodup := by decide
  have bound : ∀ slot ∈ order, slot < 19 := by decide
  rcases scatter_spec (h.written.map Fin.val) (List.replicate 19 0)
    (distinct.sublist (List.take_sublist h.written.length _)) (by rw [size, List.length_map]) (by
      intro slot member
      rw [List.length_replicate]
      exact bound slot (List.mem_of_mem_take member)) with ⟨length, value⟩
  apply List.ext_getElem
  · rw [length, DynamicHeader.codeLengths, List.length_map, List.length_range, List.length_replicate]
  · intro s first second
    have here := value s
    have inside : s < 19 := by
      rw [length, List.length_replicate] at first
      exact first
    rw [List.getD_eq_getElem?_getD, List.getElem?_eq_getElem first, Option.getD_some] at here
    rw [here]
    simp only [DynamicHeader.codeLengths, List.getElem_map, List.getElem_range, DynamicHeader.codeLengthOf]
    have split : codeLengthOrder = order.take h.written.length ++ order.drop h.written.length :=
      (List.take_append_drop _ _).symm
    by_cases early : s ∈ order.take h.written.length
    · rw [if_pos early, split, List.idxOf_append_of_mem early]
    · have late : h.written.length ≤ codeLengthOrder.idxOf s := by
        rw [split, List.idxOf_append_of_notMem early, size]
        exact Nat.le_add_right _ _
      have absent : (h.written.map Fin.val).getD (codeLengthOrder.idxOf s) 0 = 0 :=
        List.getD_eq_default _ _ (by rw [List.length_map]; exact late)
      rw [if_neg early, absent, List.getD_eq_getElem?_getD, List.getElem?_replicate, if_pos inside,
        Option.getD_some]

theorem dynamicBlock_spec {h : DynamicHeader} (few : h.hdist ≤ 30) {lit dist : List ℕ}
    (lengths : h.lengths = some (lit, dist)) (permittedLit : Canonical.Permitted 15 lit)
    (permittedDist : Canonical.Permitted 15 dist) {head body : List Bool} (codedHead : h.bits = some head)
    {tokens : List Token} (codedBody : bodyBits lit dist tokens = some body) {s : Inflater} {rest : List Bool}
    {out : List Byte} (reads : Reads input s (head ++ (body ++ rest))) (denoted : denoteTokens s.out tokens = some out)
    (fits : out.length ≤ expected) {room : ℕ} (enough : head.length + body.length < room) :
    ∃ t, dynamicBlock input expected room s = some t ∧ Reads input t rest ∧ t.out = out := by
  rcases Option.bind_eq_some_iff.mp lengths with ⟨all, expanded, cut⟩
  split at cut
  · next total =>
      injection cut with cut
      injection cut with litSame distSame
      unfold DynamicHeader.bits at codedHead
      split at codedHead
      · next permitted =>
          rcases Option.map_eq_some_iff.mp codedHead with ⟨items, codedItems, rfl⟩
          have limits := And.intro h.hlit_high (And.intro h.hlit_low (And.intro h.hdist_low
            (And.intro h.written_low h.written_high)))
          simp only [List.append_assoc] at reads
          rcases bits_spec reads (by omega) (by decide) with ⟨s1, readLit, after1, kept1⟩
          rcases bits_spec after1 (by omega) (by decide) with ⟨s2, readDist, after2, kept2⟩
          rcases bits_spec after2 (by omega) (by decide) with ⟨s3, readCount, after3, kept3⟩
          have hlit : h.hlit - 257 + 257 = h.hlit := by omega
          have hdist : h.hdist - 1 + 1 = h.hdist := by omega
          have hclen : h.written.length - 4 + 4 = h.written.length := by omega
          have size : (order.take h.written.length).length = h.written.length := by
            rw [List.length_take]
            exact Nat.min_eq_left h.written_high
          rcases readOrder_spec (List.replicate 19 0) size after3 with ⟨s4, readCl, after4, kept4⟩
          rw [codeLengths_eq] at readCl
          rcases build_spec permitted (by decide) (by simp [DynamicHeader.codeLengths]) with ⟨clh, build, built⟩
          have symbols := itemsBits_length codedItems
          have left : h.items.length < room := by
            simp only [List.length_append] at enough
            omega
          rcases readLengths_spec built permitted codedItems expanded after4 left with ⟨s5, readAll, after5, kept5⟩
          rw [← kept1, ← kept2, ← kept3, ← kept4, ← kept5] at denoted
          have distAll : (all.drop h.hlit).take h.hdist = dist := by
            rw [← distSame, List.take_of_length_le (by rw [List.length_drop]; omega)]
          have litLength : lit.length ≤ 320 := by rw [← litSame, List.length_take]; omega
          have distLength : dist.length ≤ 320 := by rw [← distSame, List.length_drop]; omega
          rcases huffmanBlock_spec permittedLit permittedDist litLength distLength codedBody after5 denoted fits
            (Nat.le_of_lt (Nat.lt_of_le_of_lt (Nat.le_add_left _ _) enough)) with ⟨t, ran, done, whole⟩
          refine ⟨t, ?_, done, whole⟩
          have legal : ¬ (s3.failed = true ∨ h.hlit > 286 ∨ h.hdist > 30) := by
            rw [after3.live]
            simp only [Bool.false_eq_true, false_or]
            omega
          unfold dynamicBlock
          simp only [readLit, readDist, readCount, hlit, hdist, hclen, legal, if_false, readCl, after4.live,
            Bool.false_eq_true, build, ← total, readAll, litSame, distAll]
          exact ran
      · cases codedHead
  · cases cut

/-! Stored blocks. -/

theorem complement_eq {len : ℕ} (small : len < 2 ^ 16) : len ^^^ 0xFFFF = 2 ^ 16 - 1 - len := by
  apply Nat.eq_of_testBit_eq
  intro i
  have ones : (0xFFFF : ℕ) = 2 ^ 16 - 1 := by decide
  have flipped : 2 ^ 16 - 1 - len = 2 ^ 16 - (len + 1) := by omega
  rw [Nat.testBit_xor, ones, Nat.testBit_two_pow_sub_one, flipped, Nat.testBit_two_pow_sub_succ small]
  by_cases low : i < 16
  · simp [low]
  · have high : len.testBit i = false :=
      Nat.testBit_lt_two_pow (Nat.lt_of_lt_of_le small (Nat.pow_le_pow_right (by decide) (by omega)))
    simp [low, high]

theorem lsb_word {n : ℕ} (small : n < 2 ^ 16) :
    lsb 16 n = ofBytes [BitVec.ofNat 8 n, BitVec.ofNat 8 (n / 2 ^ 8)] := by
  have split := lsb_split 8 8 n
  have low := lsb_mod 8 n
  rw [ofBytes_cons, ofBytes_cons, ofBytes_nil, List.append_nil, BitVec.toNat_ofNat, BitVec.toNat_ofNat,
    low, Nat.mod_eq_of_lt (by omega : n / 2 ^ 8 < 2 ^ 8)]
  exact split

theorem word_bytes {n : ℕ} (small : n < 2 ^ 16) :
    (BitVec.ofNat 8 n).toNat ||| (BitVec.ofNat 8 (n / 2 ^ 8)).toNat <<< 8 = n := by
  rw [or_shift _ (BitVec.isLt _), BitVec.toNat_ofNat, BitVec.toNat_ofNat]
  omega

theorem bytes_of_bits {bytes head : List Byte} {rest : List Bool} (same : ofBytes head ++ rest = ofBytes bytes) :
    ∃ more, bytes = head ++ more ∧ rest = ofBytes more := by
  have sizes := congrArg List.length same
  rw [List.length_append, ofBytes_length, ofBytes_length] at sizes
  have cut : ofBytes bytes = ofBytes (bytes.take head.length) ++ ofBytes (bytes.drop head.length) := by
    rw [← ofBytes_append, List.take_append_drop]
  have taken : (bytes.take head.length).length = head.length := by
    rw [List.length_take]
    omega
  rw [cut] at same
  rcases List.append_inj same (by rw [ofBytes_length, ofBytes_length, taken]) with ⟨first, second⟩
  have start := ofBytes_injective taken.symm first
  refine ⟨bytes.drop head.length, ?_, second⟩
  calc bytes = bytes.take head.length ++ bytes.drop head.length := (List.take_append_drop _ _).symm
    _ = head ++ bytes.drop head.length := congrArg (· ++ bytes.drop head.length) start.symm

theorem byteAt_of_drop {pos k : ℕ} {bytes : List Byte} {b : Byte} (here : input.drop pos = bytes)
    (found : bytes[k]? = some b) : byteAt input (pos + k) = b.toNat := by
  rw [← here, List.getElem?_drop] at found
  rw [byteAt, List.getD_eq_getElem?_getD, found]
  rfl

theorem storedBlock_spec {padding : List Bool} {data : List Byte} (short : data.length < 2 ^ 16)
    {s : Inflater} {rest : List Bool}
    (reads : Reads input s (padding ++ (lsb 16 data.length ++ (lsb 16 (2 ^ 16 - 1 - data.length) ++
      (ofBytes data ++ rest)))))
    (aligned : s.bitCount = padding.length) (fits : s.out.length + data.length ≤ expected) :
    ∃ t, storedBlock input expected s = some t ∧ Reads input t rest ∧ t.out = s.out ++ data := by
  have view := reads.view
  rcases List.append_inj view (by rw [lsb_length, aligned]) with ⟨_, tail⟩
  have complement : 2 ^ 16 - 1 - data.length < 2 ^ 16 := by omega
  have joined : ofBytes ([BitVec.ofNat 8 data.length, BitVec.ofNat 8 (data.length / 2 ^ 8),
      BitVec.ofNat 8 (2 ^ 16 - 1 - data.length), BitVec.ofNat 8 ((2 ^ 16 - 1 - data.length) / 2 ^ 8)] ++ data) ++
        rest = ofBytes (input.drop s.pos) := by
    rw [← tail, lsb_word short, lsb_word complement]
    simp [List.append_assoc]
  rcases bytes_of_bits joined with ⟨more, bytes, later⟩
  have size := congrArg List.length bytes
  simp only [List.length_drop, List.length_append, List.length_cons, List.length_nil] at size
  have byte0 : byteAt input s.pos = _ := byteAt_of_drop (k := 0) bytes rfl
  have byte1 := byteAt_of_drop (k := 1) bytes rfl
  have byte2 := byteAt_of_drop (k := 2) bytes rfl
  have byte3 := byteAt_of_drop (k := 3) bytes rfl
  have after : input.drop (s.pos + 4) = data ++ more := by
    rw [← List.drop_drop, bytes]
    rfl
  refine ⟨{ s with bitCount := 0, bitBuf := 0, pos := s.pos + 4 + data.length, out := s.out ++ data }, ?_,
    ⟨⟨reads.live, by simp, ?_, ?_⟩, by simp⟩, rfl⟩
  · have whole : ¬ s.pos + 4 > input.length := by omega
    have good : ¬ (data.length ^^^ 0xFFFF ≠ 2 ^ 16 - 1 - data.length ∨ data.length > input.length - (s.pos + 4) ∨
        data.length > expected - s.out.length) := by
      rw [complement_eq short]
      omega
    unfold storedBlock
    simp only [whole, if_false, byte0, byte1, byte2, byte3, word_bytes short, word_bytes complement, good,
      after, List.take_left]
  · simp only [lsb, List.nil_append]
    rw [← List.drop_drop, after, List.drop_left, later]
  · simp only
    omega

/-! Whole streams. -/

theorem Reads.bitCount_eq {s : Inflater} {rest : List Bool} (reads : Reads input s rest) :
    s.bitCount = rest.length % 8 := by
  have sizes := congrArg List.length reads.view
  have short := reads.short
  rw [List.length_append, lsb_length, ofBytes_length] at sizes
  omega

/-- The limit the inflater puts on a block beyond the format. -/
def FewDistances : DeflateFormat.Block → Prop
  | .dynamic header _ => header.hdist ≤ 30
  | _ => True

theorem Block.denote_length {b : DeflateFormat.Block} {out out' : List Byte} (ok : b.denote out = some out') :
    out.length ≤ out'.length := by
  cases b with
  | stored padding data =>
      injection ok with same
      simp [← same]
  | fixed tokens => exact denoteTokens_length ok
  | dynamic header tokens => exact denoteTokens_length ok

theorem denoteBlocks_length {blocks : List DeflateFormat.Block} {out out' : List Byte}
    (ok : denoteBlocks out blocks = some out') : out.length ≤ out'.length := by
  induction blocks generalizing out with
  | nil =>
      injection ok with same
      rw [same]
  | cons b blocks ih =>
      rcases Option.bind_eq_some_iff.mp ok with ⟨middle, first, rest⟩
      exact Nat.le_trans (Block.denote_length first) (ih rest)

/-- The body of a block by its type, as `run` selects it. -/
def blockOfType (input : List Byte) (expected type : ℕ) (s : Inflater) : Option Inflater :=
  if type = 0 then storedBlock input expected s
  else if type = 1 then huffmanBlock input expected (8 * input.length + 1) fixedLit fixedDist s
  else if type = 2 then dynamicBlock input expected (8 * input.length + 1) s
  else none

/-- The two reserved distance symbols have codes after all others. -/
theorem fixed_codes : (Canonical.Permitted 15 fixedLit ∧ Canonical.Permitted 15 fixedDist) ∧
    ∀ k : Fin 30, Canonical.codeword fixedDistanceLengths k = Canonical.codeword fixedDist k := by
  decide +kernel

theorem fixed_bodyBits (tokens : List Token) :
    bodyBits fixedLiteralLengths fixedDistanceLengths tokens = bodyBits fixedLit fixedDist tokens := by
  induction tokens with
  | nil => rfl
  | cons token tokens ih =>
      rw [bodyBits, bodyBits, ih]
      cases token with
      | literal b => rfl
      | copy l le d de =>
          rw [Token.bits, Token.bits, fixed_codes.2]
          rfl

theorem block_round {b : DeflateFormat.Block} (few : FewDistances b) {start : ℕ} {final : Bool} {code : List Bool}
    (coded : b.bits start final = some code) {s : Inflater} {rest : List Bool} {out : List Byte}
    (reads : Reads input s (code ++ rest)) (position : start + (code ++ rest).length = 8 * input.length)
    (denoted : b.denote s.out = some out) (fits : out.length ≤ expected) :
    ∃ type s1 s2 t, bits input 1 s = (final.toNat, s1) ∧ bits input 2 s1 = (type, s2) ∧ s2.failed = false ∧
      blockOfType input expected type s2 = some t ∧ Reads input t rest ∧ t.out = out := by
  have flag : ∀ tail : List Bool, final :: tail = lsb 1 final.toNat ++ tail := by
    intro tail
    cases final <;> rfl
  have small : final.toNat < 2 ^ 1 := by cases final <;> decide
  cases b with
  | stored padding data =>
      simp only [DeflateFormat.Block.bits] at coded
      split at coded
      · next sound =>
          injection coded with same
          subst same
          simp only [List.append_assoc, flag] at reads
          rcases bits_spec reads small (by decide) with ⟨s1, one, after1, kept1⟩
          rcases bits_spec after1 (by decide) (by decide) with ⟨s2, two, after2, kept2⟩
          have aligned : s2.bitCount = padding.length := by
            rw [after2.bitCount_eq]
            simp only [List.length_append, List.length_cons, lsb_length, ofBytes_length] at position ⊢
            omega
          injection denoted with same
          rw [← same, List.length_append, ← kept1, ← kept2] at fits
          rcases storedBlock_spec sound.1 after2 aligned fits with ⟨t, ran, done, whole⟩
          refine ⟨0, s1, s2, t, one, two, after2.live, ran, done, ?_⟩
          rw [whole, kept2, kept1, same]
      · cases coded
  | fixed tokens =>
      rcases Option.map_eq_some_iff.mp coded with ⟨body, codedBody, same⟩
      subst same
      rw [fixed_bodyBits] at codedBody
      have sizes := position
      simp only [List.length_append, List.length_cons, lsb_length] at sizes
      simp only [List.append_assoc, flag] at reads
      rcases bits_spec reads small (by decide) with ⟨s1, one, after1, kept1⟩
      rcases bits_spec after1 (by decide) (by decide) with ⟨s2, two, after2, kept2⟩
      have denoted_ : denoteTokens s2.out tokens = some out := by
        rw [kept2, kept1]
        exact denoted
      have enough : body.length ≤ 8 * input.length + 1 := by omega
      have litLength : fixedLit.length ≤ 320 := by
        simp only [fixedLit, List.length_append, List.length_replicate]
        omega
      have distLength : fixedDist.length ≤ 320 := by
        rw [fixedDist, List.length_replicate]
        omega
      rcases huffmanBlock_spec fixed_codes.1.1 fixed_codes.1.2 litLength distLength codedBody after2
        denoted_ fits enough with ⟨t, ran, done, whole⟩
      refine ⟨1, s1, s2, t, one, two, after2.live, ?_, done, whole⟩
      rw [blockOfType, if_neg (by decide), if_pos rfl]
      exact ran
  | dynamic header tokens =>
      simp only [DeflateFormat.Block.bits, Option.bind_eq_bind, Option.bind_eq_some_iff] at coded
      rcases coded with ⟨⟨lit, dist⟩, lengths, head, codedHead, body, codedBody, checked⟩
      split at checked
      · next permitted =>
          injection checked with same
          subst same
          have sizes := position
          simp only [List.length_append, List.length_cons, lsb_length] at sizes
          simp only [List.append_assoc, flag] at reads
          rcases bits_spec reads small (by decide) with ⟨s1, one, after1, kept1⟩
          rcases bits_spec after1 (by decide) (by decide) with ⟨s2, two, after2, kept2⟩
          have denoted_ : denoteTokens s2.out tokens = some out := by
            rw [kept2, kept1]
            exact denoted
          have enough : head.length + body.length < 8 * input.length + 1 := by omega
          rcases dynamicBlock_spec few lengths permitted.1 permitted.2 codedHead codedBody after2 denoted_ fits
            enough with ⟨t, ran, done, whole⟩
          refine ⟨2, s1, s2, t, one, two, after2.live, ?_, done, whole⟩
          rw [blockOfType, if_neg (by decide), if_neg (by decide), if_pos rfl]
          exact ran
      · cases checked

theorem runBlocks_succ (room : ℕ) {s s1 s2 t : Inflater} {final : Bool} {type : ℕ}
    (one : bits input 1 s = (final.toNat, s1)) (two : bits input 2 s1 = (type, s2)) (live : s2.failed = false)
    (ran : blockOfType input expected type s2 = some t) (sound : t.failed = false) :
    runBlocks input expected (room + 1) s = if final then some t else runBlocks input expected room t := by
  unfold blockOfType at ran
  rw [runBlocks]
  simp only [one, two, live, Bool.false_eq_true, if_false, ran, sound]
  cases final <;> rfl

theorem runBlocks_spec {blocks : List DeflateFormat.Block} (few : ∀ b ∈ blocks, FewDistances b) {start : ℕ}
    {code : List Bool} (coded : streamBits start blocks = some code) {s : Inflater} {rest : List Bool}
    {out : List Byte} (reads : Reads input s (code ++ rest))
    (position : start + (code ++ rest).length = 8 * input.length) (denoted : denoteBlocks s.out blocks = some out)
    (fits : out.length ≤ expected) {room : ℕ} (enough : blocks.length ≤ room) :
    ∃ t, runBlocks input expected room s = some t ∧ t.out = out := by
  induction blocks generalizing start code s room with
  | nil => cases coded
  | cons b blocks ih =>
      have fewHere := few b (List.mem_cons_self ..)
      rcases Option.bind_eq_some_iff.mp denoted with ⟨middle, denotedHere, denotedRest⟩
      have longer := denoteBlocks_length denotedRest
      cases room with
      | zero => simp at enough
      | succ room =>
          cases blocks with
          | nil =>
              injection denotedRest with same
              subst same
              rcases block_round fewHere coded reads position denotedHere fits with
                ⟨type, s1, s2, t, one, two, live, ran, done, whole⟩
              refine ⟨t, ?_, whole⟩
              rw [runBlocks_succ room one two live ran done.live, if_pos rfl]
          | cons next more =>
              simp only [streamBits, Option.bind_eq_bind, Option.bind_eq_some_iff] at coded
              rcases coded with ⟨first, codedFirst, later, codedLater, same⟩
              injection same with same
              subst same
              rw [List.append_assoc] at reads position
              rcases block_round fewHere codedFirst reads position denotedHere (Nat.le_trans longer fits) with
                ⟨type, s1, s2, t, one, two, live, ran, done, whole⟩
              rw [← whole] at denotedRest
              have onward : start + first.length + (later ++ rest).length = 8 * input.length := by
                rw [List.length_append] at position
                omega
              rcases ih (fun b member => few b (List.mem_cons_of_mem _ member)) codedLater done onward denotedRest
                (by simpa using enough) with ⟨u, ranMore, wholeMore⟩
              refine ⟨u, ?_, wholeMore⟩
              rw [runBlocks_succ room one two live ran done.live]
              exact ranMore

theorem Block.bits_length {b : DeflateFormat.Block} {start : ℕ} {final : Bool} {code : List Bool}
    (coded : b.bits start final = some code) : 0 < code.length := by
  cases b with
  | stored padding data =>
      simp only [DeflateFormat.Block.bits] at coded
      split at coded
      · injection coded with same
        simp [← same]
      · cases coded
  | fixed tokens =>
      rcases Option.map_eq_some_iff.mp coded with ⟨body, _, same⟩
      simp [← same]
  | dynamic header tokens =>
      simp only [DeflateFormat.Block.bits, Option.bind_eq_bind, Option.bind_eq_some_iff] at coded
      rcases coded with ⟨_, _, _, _, _, _, checked⟩
      split at checked
      · injection checked with same
        simp [← same]
      · cases checked

theorem streamBits_length {blocks : List DeflateFormat.Block} {start : ℕ} {code : List Bool}
    (coded : streamBits start blocks = some code) : blocks.length ≤ code.length := by
  induction blocks generalizing start code with
  | nil => cases coded
  | cons b blocks ih =>
      cases blocks with
      | nil => exact Block.bits_length coded
      | cons next more =>
          simp only [streamBits, Option.bind_eq_bind, Option.bind_eq_some_iff] at coded
          rcases coded with ⟨first, codedFirst, later, codedLater, same⟩
          injection same with same
          have here := Block.bits_length codedFirst
          have after := ih codedLater
          rw [← same, List.length_append, List.length_cons]
          omega

theorem run_encodes {blocks : List DeflateFormat.Block} {stream data : List Byte}
    (encodes : Encodes blocks stream data) (few : ∀ b ∈ blocks, FewDistances b) :
    run stream data.length = some data := by
  rcases encodes with ⟨denoted, code, rest, coded, bits_⟩
  have start : Reads stream {} (code ++ rest) := by
    constructor
    · constructor
      · rfl
      · exact Nat.one_pos
      · simpa [lsb] using bits_.symm
      · exact Nat.zero_le _
    · exact Nat.succ_pos 7
  have position : 0 + (code ++ rest).length = 8 * stream.length := by
    rw [← bits_, ofBytes_length, Nat.zero_add]
  have enough : blocks.length ≤ 8 * stream.length + 1 := by
    have symbols := streamBits_length coded
    rw [List.length_append] at position
    omega
  rcases runBlocks_spec few coded start position denoted (Nat.le_refl _) enough with ⟨t, ran, whole⟩
  rw [run, ran]
  simp [whole]

theorem run_size {input : List Byte} {expected : ℕ} {out : List Byte} (ok : run input expected = some out) :
    out.length = expected := by
  unfold run at ok
  split at ok
  · cases ok
  · split at ok
    · cases ok
    · next sized =>
        injection ok with same
        rw [← same]
        exact not_not.mp sized

/-- Streams within the inflater's distance limit decode to what they encode, and no result has
another size than the declared one. -/
theorem run_exact :
    (∀ blocks stream data, Encodes blocks stream data → (∀ b ∈ blocks, FewDistances b) →
      run stream data.length = some data) ∧
    ∀ input expected out, run input expected = some out → out.length = expected :=
  ⟨fun _ _ _ => run_encodes, fun _ _ _ => run_size⟩

theorem zero_lt_eight : 0 < 8 := by decide

theorem one_lt_eight : 1 < 8 := by decide

def unused : Fin 8 := ⟨0, zero_lt_eight⟩
def oneBit : Fin 8 := ⟨1, one_lt_eight⟩

/-- One literal `a` in a dynamic block that writes `hdist` distance code lengths. -/
def literalHeader (hdist : ℕ) (low : 1 ≤ hdist) (high : hdist ≤ 32) (zeros : Fin 128) : DynamicHeader where
  hlit := 257
  hdist := hdist
  hlit_low := by decide
  hlit_high := by decide
  hdist_low := low
  hdist_high := high
  written := [unused, unused, oneBit, unused, unused, unused, unused, unused, unused, unused, unused,
    unused, unused, unused, unused, unused, unused, oneBit]
  written_low := by decide
  written_high := by decide
  items := [.manyZeros 86, .single 1, .manyZeros 127, .manyZeros 9, .single 1, .single 1, .single 1,
    .manyZeros zeros]

/-- A stored, a fixed and a dynamic block; the match of the second overlaps itself. -/
def mixedBlocks : List DeflateFormat.Block :=
  [.stored [false, false, false, false, false] [1, 2, 3],
   .fixed [.literal 7, .copy 5 0 0 0],
   .dynamic (literalHeader 30 (by decide) (by decide) 17) [.literal 97]]

def mixedStream : List Byte :=
  [0x00, 0x03, 0x00, 0xFC, 0xFF, 1, 2, 3, 0x62, 0x87, 0x01, 0x40, 0x41, 0x77, 0x20, 0, 0, 0, 0, 0, 0xA4, 0xD5, 0xFF,
   0x04, 0x46, 0x04]

def mixedData : List Byte := [1, 2, 3, 7, 7, 7, 7, 7, 7, 7, 7, 7, 97]

theorem run_exact_mixed : run mixedStream 13 = some mixedData ∧ mixedData.length = 13 := by
  have encodes : Encodes mixedBlocks mixedStream mixedData := by
    refine ⟨by decide +kernel, (ofBytes mixedStream).take 203, (ofBytes mixedStream).drop 203, by decide +kernel, ?_⟩
    rw [List.take_append_drop]
  have few : ∀ b ∈ mixedBlocks, FewDistances b := by
    simp [mixedBlocks, FewDistances, literalHeader]
  have decoded := run_exact.1 mixedBlocks mixedStream mixedData encodes few
  exact ⟨decoded, run_exact.2 _ _ _ decoded⟩

def wideBlocks : List DeflateFormat.Block := [.dynamic (literalHeader 31 (by decide) (by decide) 18) [.literal 97]]

def wideStream : List Byte :=
  [0x05, 0xDE, 0x81, 0, 0, 0, 0, 0, 0x90, 0x56, 0xFF, 0x13, 0x28, 0x11]

/-- The format allows 31 and 32 distance code lengths; the inflater turns them down. -/
theorem run_wide_refused :
    ¬ ∀ blocks stream data, Encodes blocks stream data → run stream data.length = some data := by
  intro all
  have encodes : Encodes wideBlocks wideStream [97] := by
    refine ⟨by decide +kernel, (ofBytes wideStream).take 109, (ofBytes wideStream).drop 109, by decide +kernel, ?_⟩
    rw [List.take_append_drop]
  have refused : run wideStream 1 = none := by decide
  have decoded := all wideBlocks wideStream [97] encodes
  rw [List.length_singleton, refused] at decoded
  cases decoded

end Segarecomp.Media.Inflate
