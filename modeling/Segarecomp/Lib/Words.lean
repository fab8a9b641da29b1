import Mathlib.Data.List.TakeWhile
import Mathlib.Tactic

/-! A text as its words and its other letters: a token is a longest run of word letters or a single
letter that is not one. How the text ends is how its tokens end. -/

namespace Segarecomp.Words

structure Token (α : Type*) where
  text : List α
  word : Bool
deriving DecidableEq

variable {α : Type*}

/-- The word read so far, when there is one. -/
def flush (run : List α) : List (Token α) := if run.isEmpty then [] else [⟨run, true⟩]

def tokenizeFrom (isWord : α → Bool) : List α → List α → List (Token α)
  | run, [] => flush run
  | run, c :: rest =>
      if isWord c then tokenizeFrom isWord (run ++ [c]) rest else flush run ++ ⟨[c], false⟩ :: tokenizeFrom isWord [] rest

def tokenize (isWord : α → Bool) (text : List α) : List (Token α) := tokenizeFrom isWord [] text

def text (tokens : List (Token α)) : List α := tokens.flatMap Token.text

variable {isWord : α → Bool}

@[simp] theorem text_nil : text ([] : List (Token α)) = [] := rfl

@[simp] theorem text_cons (t : Token α) (rest : List (Token α)) : text (t :: rest) = t.text ++ text rest := rfl

@[simp] theorem text_append (a b : List (Token α)) : text (a ++ b) = text a ++ text b := List.flatMap_append

/-! ## The tokens of a text -/

theorem text_flush (run : List α) : text (flush run) = run := by
  cases run with
  | nil => rfl
  | cons c rest => simp [flush]

theorem text_tokenizeFrom (run rest : List α) : text (tokenizeFrom isWord run rest) = run ++ rest := by
  induction rest generalizing run with
  | nil => rw [tokenizeFrom, text_flush, List.append_nil]
  | cons c rest ih =>
      rw [tokenizeFrom]
      split_ifs
      · rw [ih, List.append_assoc, List.singleton_append]
      · rw [text_append, text_flush, text_cons, ih]
        rfl

theorem text_tokenize (letters : List α) : text (tokenize isWord letters) = letters := text_tokenizeFrom [] letters

/-- A run of word letters, or one other letter. -/
structure Token.Proper (isWord : α → Bool) (t : Token α) : Prop where
  nonempty : t.text ≠ []
  letters : ∀ c ∈ t.text, isWord c = t.word
  single : t.word = false → ∃ c, t.text = [c]

/-- Not two words side by side. -/
def Apart (a b : Token α) : Prop := a.word = false ∨ b.word = false

/-- Tokens that are proper, no two words side by side. -/
structure Spelled (isWord : α → Bool) (tokens : List (Token α)) : Prop where
  proper : ∀ t ∈ tokens, t.Proper isWord
  apart : tokens.IsChain Apart

theorem Spelled.nil : Spelled isWord [] := ⟨fun _ is => absurd is List.not_mem_nil, .nil⟩

theorem Spelled.left {a b : List (Token α)} (spelled : Spelled isWord (a ++ b)) : Spelled isWord a :=
  ⟨fun t is => spelled.proper t (List.mem_append_left b is), (List.isChain_append.mp spelled.apart).1⟩

theorem Spelled.right {a b : List (Token α)} (spelled : Spelled isWord (a ++ b)) : Spelled isWord b :=
  ⟨fun t is => spelled.proper t (List.mem_append_right a is), (List.isChain_append.mp spelled.apart).2.1⟩

theorem Spelled.tail {t : Token α} {rest : List (Token α)} (spelled : Spelled isWord (t :: rest)) : Spelled isWord rest :=
  Spelled.right (a := [t]) spelled

theorem proper_word {run : List α} (some_letter : run ≠ []) (letters : ∀ c ∈ run, isWord c = true) :
    Token.Proper isWord ⟨run, true⟩ := ⟨some_letter, letters, fun no => Bool.noConfusion no⟩

theorem proper_letter {c : α} (other : isWord c = false) : Token.Proper isWord ⟨[c], false⟩ where
  nonempty := List.cons_ne_nil _ _
  letters d is := by rw [List.mem_singleton.mp is, other]
  single _ := ⟨c, rfl⟩

theorem spelled_flush {run : List α} (letters : ∀ c ∈ run, isWord c = true) : Spelled isWord (flush run) := by
  cases run with
  | nil => exact Spelled.nil
  | cons c rest =>
      refine ⟨fun t is => ?_, List.isChain_singleton _⟩
      rw [List.mem_singleton.mp is]
      exact proper_word (List.cons_ne_nil _ _) letters

/-- A letter that is not of a word ends the word before it. -/
theorem Spelled.letter {a b : List (Token α)} {c : α} (before : Spelled isWord a) (after : Spelled isWord b)
    (other : isWord c = false) : Spelled isWord (a ++ ⟨[c], false⟩ :: b) where
  proper t is := by
    rcases List.mem_append.mp is with old | new
    · exact before.proper t old
    · rcases List.mem_cons.mp new with rfl | later
      · exact proper_letter other
      · exact after.proper t later
  apart := by
    rw [List.isChain_append]
    refine ⟨before.apart, ?_, ?_⟩
    · rw [List.isChain_cons]
      exact ⟨fun _ _ => .inl rfl, after.apart⟩
    · intro x _ y is
      cases Option.mem_some.mp is
      exact .inr rfl

theorem spelled_tokenizeFrom {run : List α} (letters : ∀ c ∈ run, isWord c = true) (rest : List α) :
    Spelled isWord (tokenizeFrom isWord run rest) := by
  induction rest generalizing run with
  | nil => exact spelled_flush letters
  | cons c rest ih =>
      rw [tokenizeFrom]
      split_ifs with word
      · apply ih
        intro d is
        rcases List.mem_append.mp is with old | new
        · exact letters d old
        · rw [List.mem_singleton.mp new, word]
      · exact (spelled_flush letters).letter (ih fun _ is => absurd is List.not_mem_nil) (by simpa using word)

theorem spelled_tokenize (letters : List α) : Spelled isWord (tokenize isWord letters) :=
  spelled_tokenizeFrom (fun _ is => absurd is List.not_mem_nil) letters

/-! ## How a text ends -/

theorem suffix_append_cases {s a b : List α} (is : s <:+ a ++ b) : s <:+ b ∨ ∃ head, s = head ++ b ∧ head <:+ a := by
  obtain ⟨lead, eq⟩ := is
  rcases List.append_eq_append_iff.mp eq with ⟨middle, rfl, tail⟩ | ⟨middle, rfl, tail⟩
  · exact .inr ⟨middle, tail, List.suffix_append lead middle⟩
  · exact .inl ⟨middle, tail.symm⟩

variable {tokens : List (Token α)}

theorem Spelled.ends_letter (spelled : Spelled isWord tokens) {s : List α} {c : α} (other : isWord c = false)
    (ends : s ++ [c] <:+ text tokens) : ∃ init, tokens = init ++ [⟨[c], false⟩] ∧ s <:+ text init := by
  rcases List.eq_nil_or_concat' tokens with rfl | ⟨init, t, rfl⟩
  · simp at ends
  · have proper := spelled.proper t (by simp)
    rw [text_append, text_cons, text_nil, List.append_nil] at ends
    have last : c ∈ t.text := by
      rcases suffix_append_cases ends with inside | ⟨head, eq, -⟩
      · exact inside.mem (by simp)
      · obtain ⟨front, d, is⟩ := (List.eq_nil_or_concat' t.text).resolve_left proper.nonempty
        rw [is, ← List.append_assoc] at eq
        rw [is, List.singleton_inj.mp (List.append_inj_right' eq rfl)]
        simp
    have no_word : t.word = false := (proper.letters c last).symm.trans other
    obtain ⟨d, single⟩ := proper.single no_word
    rw [single, List.mem_singleton] at last
    refine ⟨init, ?_, ?_⟩
    · rw [List.append_cancel_left_eq, List.singleton_inj]
      cases t
      simp only [Token.mk.injEq]
      exact ⟨by rw [last]; exact single, no_word⟩
    · obtain ⟨lead, eq⟩ := ends
      rw [single, ← List.append_assoc] at eq
      exact ⟨lead, List.append_inj_left' eq rfl⟩

theorem Spelled.ends_word (spelled : Spelled isWord tokens) {w : List α} (some_letter : w ≠ [])
    (letters : ∀ c ∈ w, isWord c = true) (ends : w <:+ text tokens) :
    ∃ init t, tokens = init ++ [t] ∧ t.word = true ∧ w <:+ t.text := by
  rcases List.eq_nil_or_concat' tokens with rfl | ⟨init, t, rfl⟩
  · simp [some_letter] at ends
  · have proper := spelled.proper t (by simp)
    rw [text_append, text_cons, text_nil, List.append_nil] at ends
    refine ⟨init, t, rfl, ?_⟩
    obtain ⟨front, d, is⟩ := (List.eq_nil_or_concat' w).resolve_left some_letter
    have word_letter : isWord d = true := letters d (by rw [is]; simp)
    rcases suffix_append_cases ends with inside | ⟨head, eq, before⟩
    · refine ⟨?_, inside⟩
      rw [← proper.letters d (inside.mem (by rw [is]; simp)), word_letter]
    · have word : t.word = true := by
        obtain ⟨c, member⟩ := List.exists_mem_of_ne_nil _ proper.nonempty
        rw [← proper.letters c member]
        exact letters c (by rw [eq]; exact List.mem_append_right head member)
      refine ⟨word, ?_⟩
      rcases List.eq_nil_or_concat' head with rfl | ⟨front', e, rfl⟩
      · rw [eq]
        exact List.suffix_refl _
      · -- the letter before the word would belong to it
        have letter : isWord e = true := letters e (by rw [eq]; simp)
        rcases List.eq_nil_or_concat' init with rfl | ⟨init', t', rfl⟩
        · simp at before
        · have proper' := spelled.proper t' (by simp)
          have apart : Apart t' t := by
            have chain := spelled.apart
            rw [List.append_assoc, List.isChain_append] at chain
            exact chain.2.1.rel
          obtain ⟨front'', last, single⟩ := (List.eq_nil_or_concat' t'.text).resolve_left proper'.nonempty
          rw [text_append, text_cons, text_nil, List.append_nil, single, ← List.append_assoc] at before
          obtain ⟨lead, same⟩ := before
          rw [← List.append_assoc] at same
          have : e = last := List.singleton_inj.mp (List.append_inj_right' same rfl)
          have : t'.word = true := by rw [← proper'.letters last (by rw [single]; simp), ← this, letter]
          rcases apart with no | no
          · rw [this] at no
            cases no
          · rw [word] at no
            cases no

end Segarecomp.Words
