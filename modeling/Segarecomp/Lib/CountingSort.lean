import Mathlib.Tactic

/-! A counting sort: the values of each key, one key after the other, as its passes over arrays leave them. An
array is a function of the index. -/

namespace Segarecomp.Lib.CountingSort

variable {β : Type*} {items all done rest : List (ℕ × β)} {n key : ℕ}

def bump (a : ℕ → ℕ) (i : ℕ) : ℕ → ℕ := Function.update a i (a i + 1)

/-- The number of items of a key, one place after the key. -/
def counts (items : List (ℕ × β)) : ℕ → ℕ := items.foldl (fun head item => bump head (item.1 + 1)) fun _ => 0

/-- The sums of the counts, in place. -/
def sums (n : ℕ) (head : ℕ → ℕ) : ℕ → ℕ :=
  (List.range n).foldl (fun head i => Function.update head (i + 1) (head (i + 1) + head i)) head

/-- Where the values of each key begin. -/
def heads (n : ℕ) (items : List (ℕ × β)) : ℕ → ℕ := sums n (counts items)

/-- The next value of its key. -/
def place (state : (ℕ → β) × (ℕ → ℕ)) (item : ℕ × β) : (ℕ → β) × (ℕ → ℕ) :=
  (Function.update state.1 (state.2 item.1) item.2, bump state.2 item.1)

def placed [Inhabited β] (n : ℕ) (items : List (ℕ × β)) : ℕ → β :=
  (items.foldl place (fun _ => default, heads n items)).1

/-- The values of a key, in the order of the items. -/
def bucket (items : List (ℕ × β)) (key : ℕ) : List β := (items.filter fun item => item.1 = key).map Prod.snd

def below (items : List (ℕ × β)) (key : ℕ) : ℕ := items.countP fun item => item.1 < key

theorem below_succ (items : List (ℕ × β)) (key : ℕ) : below items (key + 1) = below items key + (bucket items key).length := by
  rw [bucket, List.length_map, ← List.countP_eq_length_filter, below, below]
  induction items with
  | nil => rfl
  | cons item items ih =>
      rw [List.countP_cons, List.countP_cons, List.countP_cons, ih]
      simp only [decide_eq_true_eq]
      split_ifs <;> omega

theorem below_mono (items : List (ℕ × β)) : Monotone (below items) := by
  apply monotone_nat_of_le_succ
  intro key
  rw [below_succ]
  exact Nat.le_add_right _ _

/-! ## The heads -/

theorem counts_eq (items : List (ℕ × β)) : counts items 0 = 0 ∧ ∀ key, counts items (key + 1) = (bucket items key).length := by
  have general : ∀ head : ℕ → ℕ, (items.foldl (fun head item => bump head (item.1 + 1)) head) 0 = head 0 ∧ ∀ key,
      (items.foldl (fun head item => bump head (item.1 + 1)) head) (key + 1) = head (key + 1) + (bucket items key).length := by
    induction items with
    | nil => exact fun head => ⟨rfl, fun key => rfl⟩
    | cons item items ih =>
        intro head
        rcases ih (bump head (item.1 + 1)) with ⟨zero, later⟩
        rw [List.foldl_cons]
        constructor
        · rw [zero, bump, Function.update_of_ne (Nat.succ_ne_zero _).symm]
        · intro key
          rw [later, bump, bucket, bucket, List.filter_cons]
          by_cases same : item.1 = key
          · subst same
            rw [if_pos (decide_eq_true rfl), Function.update_self, List.map_cons, List.length_cons]
            omega
          · rw [if_neg (by rw [decide_eq_true_iff]; exact same), Function.update_of_ne (by omega)]
  rcases general fun _ => 0 with ⟨zero, later⟩
  constructor
  · exact zero
  · intro key
    exact (later key).trans (Nat.zero_add _)

theorem sums_counts (items : List (ℕ × β)) (n key : ℕ) :
    sums n (counts items) key = if key ≤ n then below items key else counts items key := by
  have counted := counts_eq items
  induction n generalizing key with
  | zero =>
      change counts items key = _
      by_cases zero : key ≤ 0
      · rw [if_pos zero, Nat.le_zero.mp zero, counted.1, below, eq_comm, List.countP_eq_zero]
        exact fun item _ => by simp
      · rw [if_neg zero]
  | succ n ih =>
      have last : sums (n + 1) (counts items) = Function.update (sums n (counts items)) (n + 1)
          (sums n (counts items) (n + 1) + sums n (counts items) n) := by
        rw [sums, sums, List.range_succ, List.foldl_append]
        rfl
      have here : sums n (counts items) n = below items n := by rw [ih, if_pos le_rfl]
      have next : sums n (counts items) (n + 1) = (bucket items n).length := by
        rw [ih, if_neg (Nat.not_succ_le_self n), counted.2]
      rw [last, here, next]
      by_cases same : key = n + 1
      · rw [same, Function.update_self, if_pos le_rfl, below_succ, Nat.add_comm]
      · rw [Function.update_of_ne same, ih]
        by_cases low : key ≤ n
        · rw [if_pos low, if_pos (Nat.le_succ_of_le low)]
        · rw [if_neg low, if_neg (by omega)]

theorem heads_eq (items : List (ℕ × β)) (inside : key ≤ n) : heads n items key = below items key := by
  rw [heads, sums_counts, if_pos inside]

/-! ## The values -/

/-- The items that are done stand at the beginnings of their buckets. -/
structure Placed (n : ℕ) (all done : List (ℕ × β)) (state : (ℕ → β) × (ℕ → ℕ)) : Prop where
  fill : ∀ key < n, state.2 key = below all key + (bucket done key).length
  values : ∀ key < n, ∀ k b, (bucket done key)[k]? = some b → state.1 (below all key + k) = b

theorem bucket_append (items others : List (ℕ × β)) (key : ℕ) :
    bucket (items ++ others) key = bucket items key ++ bucket others key := by
  rw [bucket, List.filter_append, List.map_append]
  rfl

theorem bucket_singleton (item : ℕ × β) (key : ℕ) : bucket [item] key = if item.1 = key then [item.2] else [] := by
  by_cases same : item.1 = key
  · simp [bucket, same]
  · simp [bucket, same]

theorem Placed.step {item : ℕ × β} {state : (ℕ → β) × (ℕ → ℕ)} (whole : all = done ++ [item] ++ rest)
    (inside : item.1 < n) (now : Placed n all done state) : Placed n all (done ++ [item]) (place state item) := by
  have room : ∀ key, (bucket done key ++ bucket [item] key).length ≤ (bucket all key).length := by
    intro key
    rw [whole, bucket_append, bucket_append, List.length_append, List.length_append, List.length_append]
    exact Nat.le_add_right _ _
  have here : state.2 item.1 = below all item.1 + (bucket done item.1).length := now.fill item.1 inside
  have before : state.2 item.1 < below all (item.1 + 1) := by
    have more := room item.1
    rw [bucket_singleton, if_pos rfl, List.length_append, List.length_singleton] at more
    rw [below_succ]
    omega
  constructor
  · intro key low
    change bump state.2 item.1 key = _
    rw [bucket_append, bucket_singleton, List.length_append, ← Nat.add_assoc, ← now.fill key low, bump]
    by_cases same : item.1 = key
    · rw [same, Function.update_self, if_pos rfl]
      rfl
    · rw [Function.update_of_ne (Ne.symm same), if_neg same]
      rfl
  · intro key low k b found
    change Function.update state.1 (state.2 item.1) item.2 (below all key + k) = b
    rw [bucket_append, bucket_singleton] at found
    by_cases same : item.1 = key
    · subst same
      rw [if_pos rfl] at found
      rcases Nat.lt_or_ge k (bucket done item.1).length with early | last
      · rw [List.getElem?_append_left early] at found
        rw [Function.update_of_ne (by omega)]
        exact now.values item.1 low k b found
      · rw [List.getElem?_append_right last, List.getElem?_singleton] at found
        split_ifs at found with first
        rw [here, show below all item.1 + k = below all item.1 + (bucket done item.1).length by omega,
          Function.update_self]
        exact Option.some.inj found
    · rw [if_neg same, List.append_nil] at found
      have short : k < (bucket done key).length := (List.getElem?_eq_some_iff.mp found).1
      have fits : below all key + k < below all (key + 1) := by
        have more := room key
        rw [List.length_append] at more
        rw [below_succ]
        omega
      have apart : below all key + k ≠ state.2 item.1 := by
        rcases Nat.lt_or_gt_of_ne same with low | high
        · have order : below all (item.1 + 1) ≤ below all key := below_mono all low
          omega
        · have order : below all (key + 1) ≤ below all item.1 := below_mono all high
          omega
      rw [Function.update_of_ne apart]
      exact now.values key low k b found

theorem Placed.run {state : (ℕ → β) × (ℕ → ℕ)} (whole : all = done ++ rest) (inside : ∀ item ∈ rest, item.1 < n)
    (now : Placed n all done state) : Placed n all all (rest.foldl place state) := by
  induction rest generalizing done state with
  | nil =>
      rw [List.append_nil] at whole
      exact whole ▸ now
  | cons item rest ih =>
      have next : all = done ++ [item] ++ rest := by rw [whole, List.append_cons]
      apply ih next fun other member => inside other (List.mem_cons_of_mem _ member)
      exact now.step next (inside item List.mem_cons_self)

/-- Between two heads stand the values of the key. -/
theorem slice_eq [Inhabited β] (inside : ∀ item ∈ items, item.1 < n) (key : ℕ) :
    ((List.range (heads n items (key + 1) - heads n items key)).map fun k => placed n items (heads n items key + k)) =
      bucket items key := by
  rcases Nat.lt_or_ge key n with low | high
  · have start : Placed n items [] ((fun _ => default : ℕ → β), heads n items) := by
      constructor
      · exact fun key low => heads_eq items low.le
      · exact fun key _ k b none => by cases none
    have finished := start.run (List.nil_append items).symm inside
    have length : heads n items (key + 1) - heads n items key = (bucket items key).length := by
      rw [heads_eq items low, heads_eq items low.le, below_succ, Nat.add_sub_cancel_left]
    apply List.ext_getElem?
    intro k
    rw [length, List.getElem?_map, heads_eq items low.le]
    rcases Nat.lt_or_ge k (bucket items key).length with early | beyond
    · have value := finished.values key low k _ (List.getElem?_eq_getElem early)
      rw [List.getElem?_range early, Option.map_some, List.getElem?_eq_getElem early]
      exact congrArg some value
    · rw [List.getElem?_eq_none beyond, List.getElem?_eq_none (by rw [List.length_range]; exact beyond)]
      rfl
  · have empty : bucket items key = [] := by
      rw [bucket, List.map_eq_nil_iff, List.filter_eq_nil_iff]
      intro item member
      rw [decide_eq_true_iff]
      exact ((inside item member).trans_le high).ne
    have none : heads n items (key + 1) = 0 := by
      rw [heads, sums_counts, if_neg (by omega), (counts_eq items).2, empty]
      rfl
    rw [none, empty, Nat.zero_sub]
    rfl

end Segarecomp.Lib.CountingSort
