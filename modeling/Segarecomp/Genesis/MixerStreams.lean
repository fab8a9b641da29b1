import Segarecomp.Genesis.Mixer

/-! What the mixer puts out is read off the two native streams alone, whatever the order in which
their deliveries interleave. -/

namespace Segarecomp.Genesis.Mixer

/-! ## The output of two native streams -/

/-- Window `k` starts at the first master tick at or after `k / 44100` seconds. -/
def tick (k : ℕ) : ℕ :=
  (k * GENESIS_NTSC_MASTER_TICKS_PER_SECOND + (GENESIS_MIXER_RATE_HZ - 1)) / GENESIS_MIXER_RATE_HZ

/-- A native as its source sees it: the PSG's level stands in both channels. -/
structure Native where
  start : ℕ
  value : Stereo

def YmNative.native (n : YmNative) : Native := ⟨n.start, (clip16 n.left, clip16 n.right)⟩

def PsgNative.native (n : PsgNative) : Native := ⟨n.start, ((n.level : ℤ), (n.level : ℤ))⟩

def inWindow (k : ℕ) (n : Native) : Bool := tick k ≤ n.start ∧ n.start < tick (k + 1)

def total (ns : List Native) : Stereo :=
  ((ns.map fun n => n.value.1).sum, (ns.map fun n => n.value.2).sum)

/-- The value of a window: the mean of its natives, scaled for the PSG, and the value before it
where it has none. -/
def valueOf (isPsg : Bool) (here : List Native) (before : Stereo) : Stereo :=
  if here = [] then before
  else if isPsg then scalePsg (mean (total here) here.length)
  else mean (total here) here.length

/-- The value a source holds when window `k` opens; that of window `k` is `held … (k + 1)`. -/
def held (isPsg : Bool) (ns : List Native) : ℕ → Stereo
  | 0 => (0, 0)
  | k + 1 => valueOf isPsg (ns.filter (inWindow k)) (held isPsg ns k)

/-- The frames `0 .. count - 1` of two streams, put into `out` one after the other. -/
def emitted (out : Output) (ym psg : List Native) (count : ℕ) : Output :=
  (List.range count).foldl
    (fun out k => emitFrame out (held false ym (k + 1)) (held true psg (k + 1))) out

def mixed (ym psg : Stereo) : Stereo := (clip16 (ym.1 + psg.1), clip16 (ym.2 + psg.2))

def endOf (period : ℕ) (ns : List Native) : ℕ :=
  match ns.getLast? with
  | some n => n.start + period
  | none => 0

/-- The windows that are over at tick `t`. -/
def windowsOver (t : ℕ) : ℕ := t * GENESIS_MIXER_RATE_HZ / GENESIS_NTSC_MASTER_TICKS_PER_SECOND

/-- No native starts before the one before it has ended. -/
def NonOverlapping (period : ℕ) (ns : List Native) : Prop :=
  ns.Pairwise fun a b => a.start + period ≤ b.start

def ymOf (order : List (YmNative ⊕ PsgNative)) : List YmNative := order.filterMap Sum.getLeft?

def psgOf (order : List (YmNative ⊕ PsgNative)) : List PsgNative := order.filterMap Sum.getRight?

def ymNatives (order : List (YmNative ⊕ PsgNative)) : List Native :=
  (ymOf order).map YmNative.native

def psgNatives (order : List (YmNative ⊕ PsgNative)) : List Native :=
  (psgOf order).map PsgNative.native

/-! ## Windows -/

theorem tick_le_iff {k t : ℕ} : tick k ≤ t ↔ k ≤ windowsOver t := by
  have rate : 0 < GENESIS_MIXER_RATE_HZ := by decide
  have master : 0 < GENESIS_NTSC_MASTER_TICKS_PER_SECOND := by decide
  unfold tick windowsOver
  rw [Nat.le_div_iff_mul_le master, ← Nat.lt_succ_iff, Nat.div_lt_iff_lt_mul rate,
    Nat.succ_mul]
  omega

theorem tick_lt_tick {j k : ℕ} (h : j < k) : tick j < tick k := by
  simp only [tick, GENESIS_NTSC_MASTER_TICKS_PER_SECOND, GENESIS_MIXER_RATE_HZ]
  omega

theorem tick_le_tick {j k : ℕ} (h : j ≤ k) : tick j ≤ tick k := by
  rcases Nat.eq_or_lt_of_le h with rfl | lt
  · exact Nat.le_refl _
  · exact (tick_lt_tick lt).le

theorem windowsOver_eq {k t : ℕ} (lower : tick k ≤ t) (upper : t < tick (k + 1)) :
    windowsOver t = k := by
  have ge : k ≤ windowsOver t := tick_le_iff.mp lower
  have lt : ¬ k + 1 ≤ windowsOver t := by
    rw [← tick_le_iff]
    omega
  omega

theorem inWindow_iff {k : ℕ} {n : Native} : inWindow k n = true ↔ windowsOver n.start = k := by
  simp only [inWindow, Bool.decide_and, Bool.and_eq_true, decide_eq_true_eq]
  constructor
  · rintro ⟨lower, upper⟩
    exact windowsOver_eq lower upper
  · rintro rfl
    constructor
    · exact tick_le_iff.mpr le_rfl
    · by_contra h
      have next : windowsOver n.start + 1 ≤ windowsOver n.start := tick_le_iff.mp (by omega)
      omega

theorem lt_of_inRange {k : ℕ} (inRange : windowInRange k = true) :
    (k + 3) * 53693175 < 18446744073709551616 := by
  have lt : k < UINT64_MAX / GENESIS_NTSC_MASTER_TICKS_PER_SECOND - 2 := of_decide_eq_true inRange
  have quotient : UINT64_MAX / GENESIS_NTSC_MASTER_TICKS_PER_SECOND * 53693175 ≤
      18446744073709551615 := by decide
  omega

theorem windowStart_eq {k : ℕ} (inRange : windowInRange k = true) :
    windowStart (k + 1) = tick (k + 1) := by
  have bound := lt_of_inRange inRange
  have product : (k + 1) * 53693175 < 18446744073709551616 := by linarith
  have sum : (k + 1) * 53693175 + 44099 < 18446744073709551616 := by linarith
  change ((k + 1) * 53693175 % 18446744073709551616 + 44099) % 18446744073709551616 / 44100 =
    ((k + 1) * 53693175 + 44099) / 44100
  rw [Nat.mod_eq_of_lt product, Nat.mod_eq_of_lt sum]

theorem tick_lt_of_inRange {k : ℕ} (inRange : windowInRange k = true) :
    tick (k + 1) + GENESIS_MIXER_YM_SAMPLE_MASTER < 18446744073709551616 := by
  have bound := lt_of_inRange inRange
  change ((k + 1) * 53693175 + 44099) / 44100 + 1008 < 18446744073709551616
  omega

/-! ## Later natives leave the windows before them alone -/

theorem filter_append_of_not {k : ℕ} {ns : List Native} {n : Native} (h : windowsOver n.start ≠ k) :
    (ns ++ [n]).filter (inWindow k) = ns.filter (inWindow k) := by
  have out : inWindow k n = false := by
    rw [Bool.eq_false_iff, ne_eq, inWindow_iff]
    exact h
  simp [List.filter_append, out]

theorem held_append {isPsg : Bool} {ns : List Native} {n : Native} {k : ℕ}
    (h : k ≤ windowsOver n.start) : held isPsg (ns ++ [n]) k = held isPsg ns k := by
  induction k with
  | zero => rfl
  | succ k ih => rw [held, held, filter_append_of_not (by omega), ih (by omega)]

theorem emitted_succ (out : Output) (ym psg : List Native) (count : ℕ) :
    emitted out ym psg (count + 1) =
      emitFrame (emitted out ym psg count) (held false ym (count + 1)) (held true psg (count + 1)) := by
  simp [emitted, List.range_succ]

theorem emitted_congr {out : Output} {ym ym' psg psg' : List Native} {count : ℕ}
    (sameYm : ∀ k < count, held false ym' (k + 1) = held false ym (k + 1))
    (samePsg : ∀ k < count, held true psg' (k + 1) = held true psg (k + 1)) :
    emitted out ym' psg' count = emitted out ym psg count := by
  induction count with
  | zero => rfl
  | succ count ih =>
      rw [emitted_succ, emitted_succ, sameYm count (Nat.lt_succ_self _),
        samePsg count (Nat.lt_succ_self _),
        ih (fun k hk => sameYm k (by omega)) (fun k hk => samePsg k (by omega))]

theorem emitted_frames (out : Output) (ym psg : List Native) (count : ℕ) :
    (emitted out ym psg count).frames = out.frames + count := by
  induction count with
  | zero => rfl
  | succ count ih => rw [emitted_succ, emitFrame, ih, Nat.add_assoc]

/-- The sink is handed frame `k` with the saturated sum of the two windows `k`. -/
theorem emitted_sink (out : Output) (ym psg : List Native) (count : ℕ) :
    (emitted out ym psg count).sink = out.sink ++ (List.range count).map fun k =>
      (out.frames + k, mixed (held false ym (k + 1)) (held true psg (k + 1))) := by
  induction count with
  | zero => simp [emitted]
  | succ count ih =>
      rw [emitted_succ, emitFrame, ih, emitted_frames, List.range_succ]
      simp [mixed]

/-! ## One source -/

/-- A source accumulating a window of the natives `ns`, with the values of the windows from
`taken` on in its FIFO. -/
structure Tracks (isPsg : Bool) (ns : List Native) (taken : ℕ) (s : Source) : Prop where
  inRange : windowInRange s.window = true
  windowEnd : s.windowEnd = tick (s.window + 1)
  sum : s.sum = total (ns.filter (inWindow s.window))
  count : s.count = (ns.filter (inWindow s.window)).length
  last : s.last = held isPsg ns s.window
  taken_le : taken ≤ s.window
  fifo : s.fifo = ((List.range s.window).map fun k => held isPsg ns (k + 1)).drop taken
  room : s.fifo.length ≤ GENESIS_MIXER_FIFO_WINDOWS

section Source

variable {isPsg : Bool} {ns : List Native} {taken limit period : ℕ} {s s' : Source}

theorem Tracks.value (tracks : Tracks isPsg ns taken s) :
    windowValue isPsg s = held isPsg ns (s.window + 1) := by
  rw [windowValue, held, valueOf, tracks.count, tracks.sum, tracks.last]
  by_cases empty : ns.filter (inWindow s.window) = []
  · simp [empty]
  · simp [empty]

theorem drop_range_succ {taken window : ℕ} (f : ℕ → Stereo) (h : taken ≤ window) :
    ((List.range window).map f).drop taken ++ [f window] =
      ((List.range (window + 1)).map f).drop taken := by
  rw [List.range_succ, List.map_append, List.drop_append_of_le_length (by simpa using h)]
  rfl

theorem filter_eq_nil {k : ℕ} (h : ∀ n ∈ ns, n.start < tick k) :
    ns.filter (inWindow k) = [] := by
  rw [List.filter_eq_nil_iff]
  intro n hn inside
  have before := h n hn
  simp only [inWindow, Bool.decide_and, Bool.and_eq_true, decide_eq_true_eq] at inside
  omega

theorem closeWindow_tracks (tracks : Tracks isPsg ns taken s)
    (early : ∀ n ∈ ns, n.start < tick (s.window + 1)) (closed : closeWindow isPsg s = (s', .none)) :
    Tracks isPsg ns taken s' ∧ s'.window = s.window + 1 ∧ s'.watermark = s.watermark ∧
      s'.fifo.length = s.fifo.length + 1 := by
  simp only [closeWindow] at closed
  split_ifs at closed with full inRange
  · simp at closed
  · obtain ⟨rfl, -⟩ := Prod.mk.injEq .. ▸ closed
    have none_yet : ns.filter (inWindow (s.window + 1)) = [] := filter_eq_nil early
    refine ⟨?_, rfl, rfl, by simp⟩
    constructor
    · exact inRange
    · exact windowStart_eq inRange
    · simp [none_yet, total]
    · simp [none_yet]
    · exact tracks.value
    · exact tracks.taken_le.trans (Nat.le_succ _)
    · change s.fifo ++ [windowValue isPsg s] = _
      rw [tracks.fifo, tracks.value]
      exact drop_range_succ (fun k => held isPsg ns (k + 1)) tracks.taken_le
    · have := tracks.room
      simp only [List.length_append, List.length_singleton]
      omega
  · simp at closed

/-- After the loop the window that holds `limit` is open. -/
theorem closeUpTo_tracks {fuel : ℕ} (tracks : Tracks isPsg ns taken s)
    (early : ∀ n ∈ ns, n.start < tick (s.window + 1)) (lower : tick s.window ≤ limit)
    (enough : GENESIS_MIXER_FIFO_WINDOWS - s.fifo.length < fuel)
    (closed : closeUpTo isPsg limit fuel s = (s', .none)) :
    Tracks isPsg ns taken s' ∧ tick s'.window ≤ limit ∧ limit < tick (s'.window + 1) ∧
      s'.watermark = s.watermark ∧ s.window ≤ s'.window := by
  induction fuel generalizing s with
  | zero => omega
  | succ fuel ih =>
      rw [closeUpTo] at closed
      split_ifs at closed with due
      · rcases step : closeWindow isPsg s with ⟨next, fault⟩
        rw [step] at closed
        cases fault with
        | none =>
            obtain ⟨tracks', window, watermark, length⟩ := closeWindow_tracks tracks early step
            have room := tracks'.room
            have early' : ∀ n ∈ ns, n.start < tick (next.window + 1) := by
              intro n hn
              rw [window]
              exact (early n hn).trans (tick_lt_tick (by omega))
            have lower' : tick next.window ≤ limit := by
              rw [window, ← tracks.windowEnd]
              exact due
            obtain ⟨final, below, above, same, later⟩ :=
              ih tracks' early' lower' (by omega) closed
            exact ⟨final, below, above, same.trans watermark, by omega⟩
        | sourceAhead => simp at closed
        | nonMonotonic => simp at closed
        | timeOverflow => simp at closed
      · obtain ⟨rfl, -⟩ := Prod.mk.injEq .. ▸ closed
        refine ⟨tracks, lower, ?_, rfl, le_rfl⟩
        rw [← tracks.windowEnd]
        omega

/-- Between deliveries the open window holds the watermark, the end of the last native. -/
structure Settled (isPsg : Bool) (period : ℕ) (ns : List Native) (taken : ℕ) (s : Source) : Prop
    extends Tracks isPsg ns taken s where
  watermark : s.watermark = endOf period ns
  lower : tick s.window ≤ s.watermark
  upper : s.watermark < tick (s.window + 1)
  early : ∀ n ∈ ns, n.start < s.watermark

theorem total_append (ns : List Native) (n : Native) :
    total (ns ++ [n]) = ((total ns).1 + n.value.1, (total ns).2 + n.value.2) := by
  simp [total]

theorem Tracks.add {n : Native} (tracks : Tracks isPsg ns taken s)
    (here : windowsOver n.start = s.window) (watermark : ℕ) :
    Tracks isPsg (ns ++ [n]) taken
      { s with
        sum := (s.sum.1 + n.value.1, s.sum.2 + n.value.2), count := s.count + 1, watermark } := by
  have joins : (ns ++ [n]).filter (inWindow s.window) = ns.filter (inWindow s.window) ++ [n] := by
    have inside : inWindow s.window n = true := inWindow_iff.mpr here
    simp [List.filter_append, inside]
  constructor
  · exact tracks.inRange
  · exact tracks.windowEnd
  · rw [joins, total_append, ← tracks.sum]
  · rw [joins, List.length_append, ← tracks.count]
    rfl
  · rw [held_append here.ge]
    exact tracks.last
  · exact tracks.taken_le
  · have same : (List.range s.window).map (fun k => held isPsg (ns ++ [n]) (k + 1)) =
        (List.range s.window).map (fun k => held isPsg ns (k + 1)) := by
      apply List.map_congr_left
      intro k hk
      have lt : k < s.window := List.mem_range.mp hk
      apply held_append
      omega
    rw [same]
    exact tracks.fifo
  · exact tracks.room

theorem endOf_append (period : ℕ) (ns : List Native) (n : Native) :
    endOf period (ns ++ [n]) = n.start + period := by
  simp [endOf]

theorem fuel_enough (s : Source) : GENESIS_MIXER_FIFO_WINDOWS - s.fifo.length < closeFuel := by
  simp only [closeFuel]
  omega

theorem deliverSource_settled {n : Native} (settled : Settled isPsg period ns taken s)
    (pos : 0 < period) (short : period ≤ GENESIS_MIXER_YM_SAMPLE_MASTER)
    (delivered : deliverSource isPsg n.start period n.value s = (s', .none)) :
    Settled isPsg period (ns ++ [n]) taken s' ∧ s.watermark ≤ n.start := by
  simp only [deliverSource] at delivered
  split_ifs at delivered with late
  · simp at delivered
  rcases first : closeUpTo isPsg n.start closeFuel s with ⟨opened, fault⟩
  rw [first] at delivered
  cases fault with
  | sourceAhead => simp at delivered
  | nonMonotonic => simp at delivered
  | timeOverflow => simp at delivered
  | none =>
      have early : ∀ m ∈ ns, m.start < tick (s.window + 1) :=
        fun m hm => (settled.early m hm).trans settled.upper
      have lower : tick s.window ≤ n.start := by
        have := settled.lower
        omega
      obtain ⟨tracks, below, above, same, -⟩ :=
        closeUpTo_tracks settled.toTracks early lower (fuel_enough s) first
      have wraps : (n.start + period) % 18446744073709551616 = n.start + period := by
        have bound := tick_lt_of_inRange tracks.inRange
        exact Nat.mod_eq_of_lt (by omega)
      have here : windowsOver n.start = opened.window := windowsOver_eq below above
      change closeUpTo isPsg ((n.start + period) % 18446744073709551616) closeFuel
        { opened with
          sum := (opened.sum.1 + n.value.1, opened.sum.2 + n.value.2)
          count := opened.count + 1
          watermark := (n.start + period) % 18446744073709551616 } = (s', .none) at delivered
      rw [wraps] at delivered
      have added := tracks.add here (n.start + period)
      have early' : ∀ m ∈ ns ++ [n], m.start < tick (opened.window + 1) := by
        intro m hm
        rcases List.mem_append.mp hm with old | new
        · have before := settled.early m old
          omega
        · rw [List.mem_singleton.mp new]
          exact above
      obtain ⟨tracks', below', above', same', -⟩ :=
        closeUpTo_tracks added early' (below.trans (Nat.le_add_right _ _))
          (fuel_enough _) delivered
      have watermark : s'.watermark = n.start + period := same'
      refine ⟨{ toTracks := tracks', watermark := ?_, lower := ?_, upper := ?_, early := ?_ },
        Nat.le_of_not_lt late⟩
      · rw [watermark, endOf_append]
      · rw [watermark]
        exact below'
      · rw [watermark]
        exact above'
      · intro n hn
        rw [watermark]
        rcases List.mem_append.mp hn with old | new
        · have before := settled.early n old
          omega
        · rw [List.mem_singleton.mp new]
          omega

theorem Settled.window_le {n : Native} (settled : Settled isPsg period ns taken s)
    (after : s.watermark ≤ n.start) : s.window ≤ windowsOver n.start :=
  tick_le_iff.mp (settled.lower.trans after)

/-- A source's window is the number of windows that are over when its last native ends. -/
theorem Settled.window_eq (settled : Settled isPsg period ns taken s) :
    s.window = windowsOver (endOf period ns) := by
  rw [← settled.watermark]
  exact (windowsOver_eq settled.lower settled.upper).symm

theorem Settled.take {more : ℕ} {rest : List Stereo} (settled : Settled isPsg period ns taken s)
    (le : more ≤ s.window) (le' : taken ≤ more)
    (fifo : rest = ((List.range s.window).map fun k => held isPsg ns (k + 1)).drop more) :
    Settled isPsg period ns more { s with fifo := rest } := by
  have shorter : rest.length ≤ s.fifo.length := by
    rw [fifo, settled.fifo]
    simp only [List.length_drop, List.length_map, List.length_range]
    omega
  exact
    { settled with
      taken_le := le
      fifo := fifo
      room := shorter.trans settled.room }

end Source

/-! ## Both sources -/

theorem drop_range_of_lt {n window : ℕ} (f : ℕ → Stereo) (h : n < window) :
    ((List.range window).map f).drop n = f n :: ((List.range window).map f).drop (n + 1) := by
  rw [List.drop_eq_getElem_cons (by simpa using h)]
  simp

theorem drop_range_of_le {n window : ℕ} (f : ℕ → Stereo) (h : window ≤ n) :
    ((List.range window).map f).drop n = [] :=
  List.drop_eq_nil_of_le (by simpa using h)

/-- The pump goes on until one of the sources has no window left. -/
theorem pumpFifos_tables (out : Output) (ym psg : List Native) (yms psgs n : ℕ) (hy : n ≤ yms)
    (hp : n ≤ psgs) :
    pumpFifos (((List.range yms).map fun k => held false ym (k + 1)).drop n)
        (((List.range psgs).map fun k => held true psg (k + 1)).drop n) (emitted out ym psg n) =
      (((List.range yms).map fun k => held false ym (k + 1)).drop (min yms psgs),
        ((List.range psgs).map fun k => held true psg (k + 1)).drop (min yms psgs),
        emitted out ym psg (min yms psgs)) := by
  induction left : min yms psgs - n generalizing n with
  | zero =>
      have n_eq : n = min yms psgs := by omega
      subst n_eq
      rcases Nat.le_total yms psgs with le | le
      · rw [Nat.min_eq_left le, drop_range_of_le _ (Nat.le_refl yms), pumpFifos]
        simp
      · rw [Nat.min_eq_right le, drop_range_of_le _ (Nat.le_refl psgs), pumpFifos]
        simp
  | succ left ih =>
      rw [drop_range_of_lt _ (by omega : n < yms), drop_range_of_lt _ (by omega : n < psgs), pumpFifos,
        ← emitted_succ]
      exact ih (n + 1) (by omega) (by omega) (by omega)

def GenesisMixer.source (m : GenesisMixer) (isPsg : Bool) : Source := if isPsg then m.psg else m.ym

def GenesisMixer.setSource (m : GenesisMixer) (isPsg : Bool) (delivered : Source × Fault) :
    GenesisMixer :=
  if isPsg then { m with psg := delivered.1, fault := delivered.2 }
  else { m with ym := delivered.1, fault := delivered.2 }

def periodOf (isPsg : Bool) : ℕ :=
  if isPsg then GENESIS_MIXER_PSG_TICK_MASTER else GENESIS_MIXER_YM_SAMPLE_MASTER

/-- The mixer between deliveries: every frame both sources have a window for has been put out. -/
structure Mixed (first : Output) (streams : Bool → List Native) (m : GenesisMixer) : Prop where
  fault : m.fault = .none
  settled : ∀ isPsg,
    Settled isPsg (periodOf isPsg) (streams isPsg) m.out.frames (m.source isPsg)
  out : m.out = emitted first (streams false) (streams true) m.out.frames
  drained : m.out.frames = min m.ym.window m.psg.window

section Both

variable {first : Output} {streams : Bool → List Native} {m : GenesisMixer}

theorem pump_mixed (start : first.frames = 0) (fault : m.fault = .none)
    (settled : ∀ isPsg,
      Settled isPsg (periodOf isPsg) (streams isPsg) m.out.frames (m.source isPsg))
    (out : m.out = emitted first (streams false) (streams true) m.out.frames) :
    Mixed first streams (pump m) := by
  have ym : Settled false GENESIS_MIXER_YM_SAMPLE_MASTER (streams false) m.out.frames m.ym :=
    settled false
  have psg : Settled true GENESIS_MIXER_PSG_TICK_MASTER (streams true) m.out.frames m.psg :=
    settled true
  have pumped := pumpFifos_tables first (streams false) (streams true) m.ym.window m.psg.window
    m.out.frames ym.taken_le psg.taken_le
  rw [← ym.fifo, ← psg.fifo, ← out] at pumped
  have frames : (emitted first (streams false) (streams true) (min m.ym.window m.psg.window)).frames =
      min m.ym.window m.psg.window := by
    rw [emitted_frames, start, Nat.zero_add]
  have later : m.out.frames ≤ min m.ym.window m.psg.window := le_min ym.taken_le psg.taken_le
  rw [pump, if_pos fault, pumped]
  constructor
  · exact fault
  · intro isPsg
    simp only [frames]
    cases isPsg with
    | false => exact ym.take (min_le_left _ _) later rfl
    | true => exact psg.take (min_le_right _ _) later rfl
  · simp only [frames]
  · exact frames

theorem pump_fault : (pump m).fault = m.fault := by
  rw [pump]
  split
  · rfl
  · rfl

theorem deliver_eq (isPsg : Bool) (start period : ℕ) (value : Stereo) (fault : m.fault = .none) :
    deliver m isPsg start period value =
      pump (m.setSource isPsg (deliverSource isPsg start period value (m.source isPsg))) := by
  rw [deliver, if_pos fault]
  cases isPsg <;> rfl

@[simp] theorem setSource_fault (isPsg : Bool) (delivered : Source × Fault) :
    (m.setSource isPsg delivered).fault = delivered.2 := by
  cases isPsg <;> rfl

@[simp] theorem setSource_out (isPsg : Bool) (delivered : Source × Fault) :
    (m.setSource isPsg delivered).out = m.out := by
  cases isPsg <;> rfl

@[simp] theorem setSource_source (isPsg : Bool) (delivered : Source × Fault) :
    (m.setSource isPsg delivered).source isPsg = delivered.1 := by
  cases isPsg <;> rfl

theorem setSource_other {isPsg other : Bool} (delivered : Source × Fault) (ne : other ≠ isPsg) :
    (m.setSource isPsg delivered).source other = m.source other := by
  cases isPsg <;> cases other <;> first | rfl | exact absurd rfl ne

/-- A delivery appends its native to its own stream; the frames already out do not change. -/
theorem deliver_mixed {isPsg : Bool} {n : Native} (start : first.frames = 0)
    (mixed : Mixed first streams m)
    (ok : (deliver m isPsg n.start (periodOf isPsg) n.value).fault = .none) :
    Mixed first (Function.update streams isPsg (streams isPsg ++ [n]))
      (deliver m isPsg n.start (periodOf isPsg) n.value) := by
  rw [deliver_eq _ _ _ _ mixed.fault] at ok ⊢
  rw [pump_fault, setSource_fault] at ok
  rcases step : deliverSource isPsg n.start (periodOf isPsg) n.value (m.source isPsg) with ⟨s, fault⟩
  have none : fault = .none := by
    rw [step] at ok
    exact ok
  subst none
  have pos : 0 < periodOf isPsg := by cases isPsg <;> decide
  have short : periodOf isPsg ≤ GENESIS_MIXER_YM_SAMPLE_MASTER := by cases isPsg <;> decide
  obtain ⟨settled, after⟩ := deliverSource_settled (mixed.settled isPsg) pos short step
  have window := (mixed.settled isPsg).window_le after
  have taken := (mixed.settled isPsg).taken_le
  have same : ∀ other, ∀ k < m.out.frames,
      held other (Function.update streams isPsg (streams isPsg ++ [n]) other) (k + 1) =
        held other (streams other) (k + 1) := by
    intro other k hk
    by_cases h : other = isPsg
    · subst h
      rw [Function.update_self]
      exact held_append (by omega)
    · rw [Function.update_of_ne h]
  apply pump_mixed start
  · exact setSource_fault isPsg (s, .none)
  · intro other
    rw [setSource_out]
    by_cases h : other = isPsg
    · subst h
      rw [Function.update_self, setSource_source]
      exact settled
    · rw [Function.update_of_ne h, setSource_other _ h]
      exact mixed.settled other
  · rw [setSource_out, emitted_congr (same false) (same true)]
    exact mixed.out

end Both

/-! ## Runs -/

def streamsOf (order : List (YmNative ⊕ PsgNative)) (isPsg : Bool) : List Native :=
  if isPsg then psgNatives order else ymNatives order

section Runs

variable {first count : ℕ} {order : List (YmNative ⊕ PsgNative)}

theorem run_append (m : GenesisMixer) (order later : List (YmNative ⊕ PsgNative)) :
    run m (order ++ later) = run (run m order) later := List.foldl_append

theorem push_of_fault {m : GenesisMixer} (fault : m.fault ≠ .none) (d : YmNative ⊕ PsgNative) :
    push m d = m := by
  cases d with
  | inl n => rw [push, pushYm, deliver, if_neg fault]
  | inr n => rw [push, pushPsg, deliver, if_neg fault]

theorem run_of_fault {m : GenesisMixer} (fault : m.fault ≠ .none)
    (order : List (YmNative ⊕ PsgNative)) : run m order = m := by
  induction order with
  | nil => rfl
  | cons d order ih =>
      change run (push m d) order = m
      rw [push_of_fault fault]
      exact ih

theorem run_prefix_fault {m : GenesisMixer} {order later : List (YmNative ⊕ PsgNative)}
    (ok : (run m (order ++ later)).fault = .none) : (run m order).fault = .none := by
  by_contra fault
  rw [run_append, run_of_fault fault] at ok
  exact fault ok

theorem streamsOf_append_ym (order : List (YmNative ⊕ PsgNative)) (n : YmNative) :
    streamsOf (order ++ [.inl n]) =
      Function.update (streamsOf order) false (streamsOf order false ++ [n.native]) := by
  funext isPsg
  cases isPsg <;> simp [streamsOf, ymNatives, psgNatives, ymOf, psgOf, List.filterMap_append]

theorem streamsOf_append_psg (order : List (YmNative ⊕ PsgNative)) (n : PsgNative) :
    streamsOf (order ++ [.inr n]) =
      Function.update (streamsOf order) true (streamsOf order true ++ [n.native]) := by
  funext isPsg
  cases isPsg <;> simp [streamsOf, ymNatives, psgNatives, ymOf, psgOf, List.filterMap_append]

/-- The mixer at power on, digesting the frames from `first` on. -/
abbrev started (first count : ℕ) : GenesisMixer := setRange init first count

theorem started_mixed (first count : ℕ) :
    Mixed (started first count).out (streamsOf []) (started first count) := by
  have settled : ∀ isPsg, Settled isPsg (periodOf isPsg) [] 0 sourceInit := by
    intro isPsg
    have inRange : windowInRange 0 = true := by decide
    have tick_zero : tick 0 = 0 := by decide
    refine
      { inRange, windowEnd := windowStart_eq inRange, sum := rfl, count := rfl, last := rfl
        taken_le := le_rfl, fifo := rfl, room := by decide, watermark := rfl, lower := ?_
        upper := by decide, early := ?_ }
    · change tick 0 ≤ 0
      exact tick_zero.le
    · intro n hn
      exact absurd hn List.not_mem_nil
  constructor
  · rfl
  · intro isPsg
    cases isPsg with
    | false => exact settled false
    | true => exact settled true
  · rfl
  · rfl

theorem run_mixed (ok : (run (started first count) order).fault = .none) :
    Mixed (started first count).out (streamsOf order) (run (started first count) order) := by
  induction order using List.reverseRecOn with
  | nil => exact started_mixed first count
  | append_singleton order d ih =>
      have mixed := ih (run_prefix_fault ok)
      rw [run_append] at ok ⊢
      cases d with
      | inl n =>
          rw [streamsOf_append_ym]
          exact deliver_mixed (n := n.native) rfl mixed ok
      | inr n =>
          rw [streamsOf_append_psg]
          exact deliver_mixed (n := n.native) rfl mixed ok

/-! ## Faults -/

theorem closeWindow_fault (isPsg : Bool) (s : Source) :
    (closeWindow isPsg s).2 ≠ .nonMonotonic := by
  rw [closeWindow]
  dsimp only
  split_ifs <;> simp

theorem closeUpTo_fault (isPsg : Bool) (limit fuel : ℕ) (s : Source) :
    (closeUpTo isPsg limit fuel s).2 ≠ .nonMonotonic := by
  induction fuel generalizing s with
  | zero => simp [closeUpTo]
  | succ fuel ih =>
      rw [closeUpTo]
      split_ifs with due
      · rcases step : closeWindow isPsg s with ⟨next, fault⟩
        have stepFault := closeWindow_fault isPsg s
        rw [step] at stepFault
        cases fault with
        | none => exact ih next
        | sourceAhead => simp
        | nonMonotonic => exact absurd rfl stepFault
        | timeOverflow => simp
      · simp

theorem deliverSource_fault {isPsg : Bool} {start period : ℕ} {value : Stereo} {s : Source}
    (after : s.watermark ≤ start) :
    (deliverSource isPsg start period value s).2 ≠ .nonMonotonic := by
  rw [deliverSource, if_neg (Nat.not_lt.mpr after)]
  rcases first : closeUpTo isPsg start closeFuel s with ⟨opened, fault⟩
  have firstFault := closeUpTo_fault isPsg start closeFuel s
  rw [first] at firstFault
  cases fault with
  | none => exact closeUpTo_fault isPsg _ closeFuel _
  | sourceAhead => simp
  | nonMonotonic => exact absurd rfl firstFault
  | timeOverflow => simp

theorem endOf_le {period : ℕ} {ns later : List Native} {n : Native}
    (apart : NonOverlapping period (ns ++ later)) (hn : n ∈ later) : endOf period ns ≤ n.start := by
  rcases ns.eq_nil_or_concat with rfl | ⟨ns, last, rfl⟩
  · exact Nat.zero_le _
  · rw [List.concat_eq_append, endOf_append]
    exact (List.pairwise_append.mp apart).2.2 last (by simp) n hn

theorem streamsOf_append (order later : List (YmNative ⊕ PsgNative)) (isPsg : Bool) :
    streamsOf (order ++ later) isPsg = streamsOf order isPsg ++ streamsOf later isPsg := by
  cases isPsg <;> simp [streamsOf, ymNatives, psgNatives, ymOf, psgOf, List.filterMap_append]

theorem NonOverlapping.prefix {period : ℕ} {ns later : List Native}
    (apart : NonOverlapping period (ns ++ later)) : NonOverlapping period ns :=
  (List.pairwise_append.mp apart).1

variable (first count) in
theorem run_fault (apart : ∀ isPsg, NonOverlapping (periodOf isPsg) (streamsOf order isPsg)) :
    (run (started first count) order).fault ≠ .nonMonotonic := by
  induction order using List.reverseRecOn with
  | nil => simp [run, started, setRange, init]
  | append_singleton order d ih =>
      have apart' : ∀ isPsg, NonOverlapping (periodOf isPsg) (streamsOf order isPsg) := by
        intro isPsg
        have whole := apart isPsg
        rw [streamsOf_append] at whole
        exact whole.prefix
      by_cases ok : (run (started first count) order).fault = .none
      · have mixed := run_mixed ok
        have after : ∀ isPsg, ∀ n ∈ streamsOf [d] isPsg,
            ((run (started first count) order).source isPsg).watermark ≤ n.start := by
          intro isPsg n hn
          have whole := apart isPsg
          rw [streamsOf_append] at whole
          rw [(mixed.settled isPsg).watermark]
          exact endOf_le whole hn
        rw [run_append]
        cases d with
        | inl n =>
            change (deliver _ false _ _ _).fault ≠ _
            rw [deliver_eq _ _ _ _ mixed.fault, pump_fault, setSource_fault]
            exact deliverSource_fault (after false n.native (List.mem_singleton.mpr rfl))
        | inr n =>
            change (deliver _ true _ _ _).fault ≠ _
            rw [deliver_eq _ _ _ _ mixed.fault, pump_fault, setSource_fault]
            exact deliverSource_fault (after true n.native (List.mem_singleton.mpr rfl))
      · rw [run_append, run_of_fault ok]
        exact ih apart'

/-- A window is over for both sources before its frame is put out. -/
theorem frame_final {before after : List (YmNative ⊕ PsgNative)} (isPsg : Bool) {n : Native} {k : ℕ}
    (apart : ∀ isPsg, NonOverlapping (periodOf isPsg) (streamsOf (before ++ after) isPsg))
    (ok : (run (started first count) before).fault = .none)
    (emittedFrame : k < (run (started first count) before).out.frames)
    (hn : n ∈ streamsOf after isPsg) : tick (k + 1) ≤ n.start := by
  have settled := (run_mixed ok).settled isPsg
  have whole := apart isPsg
  rw [streamsOf_append] at whole
  calc
    tick (k + 1) ≤ tick ((run (started first count) before).source isPsg).window :=
      tick_le_tick (by have := settled.taken_le; omega)
    _ ≤ ((run (started first count) before).source isPsg).watermark := settled.lower
    _ = endOf (periodOf isPsg) (streamsOf before isPsg) := settled.watermark
    _ ≤ n.start := endOf_le whole hn

end Runs

/-! ## The output is a function of the streams -/

theorem tick_unique (t : ℕ) : ∃! k, tick k ≤ t ∧ t < tick (k + 1) := by
  refine ⟨windowsOver t, ⟨tick_le_iff.mpr le_rfl, ?_⟩, fun k hk => (windowsOver_eq hk.1 hk.2).symm⟩
  by_contra h
  have next : windowsOver t + 1 ≤ windowsOver t := tick_le_iff.mp (by omega)
  omega

/-- Two streams whose natives do not overlap, delivered in any order that neither lets a source run
too far ahead nor leaves the 64-bit window arithmetic, give the frames of the streams. -/
theorem frames_of_streams (first count : ℕ) (ym : List YmNative) (psg : List PsgNative)
    (ymApart : NonOverlapping GENESIS_MIXER_YM_SAMPLE_MASTER (ym.map YmNative.native))
    (psgApart : NonOverlapping GENESIS_MIXER_PSG_TICK_MASTER (psg.map PsgNative.native))
    (order : List (YmNative ⊕ PsgNative)) (ofYm : ymOf order = ym) (ofPsg : psgOf order = psg)
    (ahead : (run (started first count) order).fault ≠ .sourceAhead)
    (overflow : (run (started first count) order).fault ≠ .timeOverflow) :
    let ymStream := ym.map YmNative.native
    let psgStream := psg.map PsgNative.native
    let frames :=
      min (windowsOver (endOf GENESIS_MIXER_YM_SAMPLE_MASTER ymStream))
        (windowsOver (endOf GENESIS_MIXER_PSG_TICK_MASTER psgStream))
    (run (started first count) order).fault = .none ∧
      (run (started first count) order).out =
        emitted (started first count).out ymStream psgStream frames ∧
      (run (started first count) order).out.sink = (List.range frames).map (fun k =>
        (k, mixed (held false ymStream (k + 1)) (held true psgStream (k + 1)))) ∧
      (∀ n ∈ ymStream ++ psgStream, ∃! k, tick k ≤ n.start ∧ n.start < tick (k + 1)) ∧
      ∀ before after, order = before ++ after →
        ∀ k < (run (started first count) before).out.frames,
          ∀ n ∈ ymNatives after ++ psgNatives after, tick (k + 1) ≤ n.start := by
  subst ofYm ofPsg
  intro ymStream psgStream frames
  have apart : ∀ isPsg, NonOverlapping (periodOf isPsg) (streamsOf order isPsg) := by
    intro isPsg
    cases isPsg with
    | false => exact ymApart
    | true => exact psgApart
  have ok : (run (started first count) order).fault = .none := by
    have monotonic := run_fault first count apart
    cases fault : (run (started first count) order).fault with
    | none => rfl
    | sourceAhead => exact absurd fault ahead
    | nonMonotonic => exact absurd fault monotonic
    | timeOverflow => exact absurd fault overflow
  have mixedRun := run_mixed ok
  have ymWindow : (run (started first count) order).ym.window =
      windowsOver (endOf GENESIS_MIXER_YM_SAMPLE_MASTER ymStream) :=
    (mixedRun.settled false).window_eq
  have psgWindow : (run (started first count) order).psg.window =
      windowsOver (endOf GENESIS_MIXER_PSG_TICK_MASTER psgStream) :=
    (mixedRun.settled true).window_eq
  have count_eq : (run (started first count) order).out.frames = frames := by
    rw [mixedRun.drained, ymWindow, psgWindow]
  have out : (run (started first count) order).out =
      emitted (started first count).out ymStream psgStream frames := by
    rw [← count_eq]
    exact mixedRun.out
  refine ⟨ok, out, ?_, fun n _ => tick_unique n.start, ?_⟩
  · rw [out, emitted_sink]
    simp [started, setRange, init]
  · rintro before after rfl k emittedFrame n hn
    have okBefore := run_prefix_fault ok
    rcases List.mem_append.mp hn with ofYm | ofPsg
    · exact frame_final false apart okBefore emittedFrame ofYm
    · exact frame_final true apart okBefore emittedFrame ofPsg

def silentYm (start : ℕ) : YmNative := ⟨start, 0, 0⟩

def fullPsg (start : ℕ) : PsgNative := { start, level := 131068 }

/-- Natives covering the first window: its mean levels are 0 and 8192. -/
theorem frames_of_streams_first :
    (run (started 0 0) ([silentYm 0, silentYm 1008].map .inl ++
      [fullPsg 0, fullPsg 240, fullPsg 480, fullPsg 720, fullPsg 960, fullPsg 1200].map .inr)).out.sink =
        [(0, (8192, 8192))] := by
  have frames := (frames_of_streams 0 0 [silentYm 0, silentYm 1008]
    [fullPsg 0, fullPsg 240, fullPsg 480, fullPsg 720, fullPsg 960, fullPsg 1200]
    (by simp [NonOverlapping, GENESIS_MIXER_YM_SAMPLE_MASTER, YmNative.native, silentYm])
    (by simp [NonOverlapping, GENESIS_MIXER_PSG_TICK_MASTER, PsgNative.native, fullPsg])
    ([silentYm 0, silentYm 1008].map .inl ++
      [fullPsg 0, fullPsg 240, fullPsg 480, fullPsg 720, fullPsg 960, fullPsg 1200].map .inr)
    rfl rfl (by decide) (by decide)).2.2.1
  rw [frames]
  decide

/-- Starts in order are not enough: a native that starts before the one before it has ended stops
the mixer, and what has been put out by then depends on the order of the deliveries. -/
theorem overlapping_natives_stop :
    ¬ ∀ (ym : List YmNative) (psg : List PsgNative),
      (ym.map YmNative.start).Pairwise (· ≤ ·) → (psg.map PsgNative.start).Pairwise (· ≤ ·) →
      ∀ order order', ymOf order = ym → psgOf order = psg → ymOf order' = ym → psgOf order' = psg →
        (run (started 0 0) order).fault ≠ .sourceAhead →
        (run (started 0 0) order').fault ≠ .sourceAhead →
        (run (started 0 0) order).out.sink = (run (started 0 0) order').out.sink := by
  intro same
  have frames := same [silentYm 0, silentYm 1008, silentYm 1500]
    [fullPsg 0, fullPsg 240, fullPsg 480, fullPsg 720, fullPsg 960, fullPsg 1200]
    (by decide) (by decide)
    ([silentYm 0, silentYm 1008, silentYm 1500].map .inl ++
      [fullPsg 0, fullPsg 240, fullPsg 480, fullPsg 720, fullPsg 960, fullPsg 1200].map .inr)
    ([fullPsg 0, fullPsg 240, fullPsg 480, fullPsg 720, fullPsg 960, fullPsg 1200].map .inr ++
      [silentYm 0, silentYm 1008, silentYm 1500].map .inl)
    rfl rfl rfl rfl (by decide) (by decide)
  revert frames
  decide

end Segarecomp.Genesis.Mixer
