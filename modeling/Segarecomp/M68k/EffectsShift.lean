import Segarecomp.M68k.EffectsAgree

/-!
# The emitted shifts and rotates compute what the host computes

Each kind is run between the declarations and the status update they share, one
case per region of the count.
-/

namespace Segarecomp.M68k.Effects.ShiftRotate

open Lib.CLang

variable {W : Type*} {ρ : Externs W} {σ : State W} {sr : Ident} {status : BitVec 16}
variable {src count : BitVec 32} {ordinal : ℕ}

def extendBit (status : BitVec 16) : Bool := decide (status &&& 0x10#16 ≠ 0#16)

/-- The six objects before a kind runs. -/
def declaredEnv (ordinal : ℕ) (src count : BitVec 32) : Env :=
  let n := Names.make ordinal
  [(n.overflow, .holds (.i32 0#32)), (n.extend, .unset .i32), (n.carry, .unset .i32),
   (n.result, .unset .u32), (n.src, .holds (.u32 src)), (n.count, .holds (.u32 count))]

/-- The six objects after it. -/
def shiftedEnv (ordinal : ℕ) (src count : BitVec 32) (s : Shifted) : Env :=
  let n := Names.make ordinal
  [(n.overflow, .holds (.ofBool s.overflow)), (n.extend, .holds (.ofBool s.extendValue)),
   (n.carry, .holds (.ofBool s.carry)), (n.result, .holds (.u32 s.result)),
   (n.src, .holds (.u32 src)), (n.count, .holds (.u32 count))]

theorem count_sub_lt {bits : BitVec 32} (hb : bits ≤ 32#32) (h0 : count ≠ 0#32)
    (hc : count < bits) : (bits - count).toNat < 32 := by
  have hn : count.toNat ≠ 0 := fun h => h0 (BitVec.eq_of_toNat_eq h)
  bv_omega

/-- The state a kind starts from. -/
def declaredState (σ : State W) (ordinal : ℕ) (src count : BitVec 32) : State W :=
  { σ with env := declaredEnv ordinal src count ++ σ.env }

def shiftedState (σ : State W) (ordinal : ℕ) (src count : BitVec 32) (s : Shifted) : State W :=
  { σ with env := shiftedEnv ordinal src count s ++ σ.env }

/-- What the branches may rely on: the sized source and the count are in scope. -/
structure Reads (env : Env) (ordinal : ℕ) (src count : BitVec 32) : Prop where
  src : env.find (Names.make ordinal).src = some (.holds (.u32 src))
  count : env.find (Names.make ordinal).count = some (.holds (.u32 count))

theorem declaredState_reads : Reads (declaredState σ ordinal src count).env ordinal src count where
  src := by simp [declaredState, declaredEnv, Names.make]
  count := by simp [declaredState, declaredEnv, Names.make]

theorem eval_currentX (status : BitVec 16) {env : Env} {w : W} (hsr : env.find sr = some (.holds (.u16 status))) :
    eval ρ env w (currentX sr) = some (.ofBool (extendBit status)) := by
  have hx : (status.setWidth 32 &&& 16#32 = 0#32) ↔ status &&& 16#16 = 0#16 := status_test status 16#16
  by_cases h : status &&& 16#16 = 0#16
  · simp [currentX, hsr, hx, extendBit, h]
    rfl
  · simp [currentX, hsr, hx, extendBit, h]
    rfl

theorem eval_bitAtExpr {env : Env} {w : W} {e : Expr} {k : BitVec 32} {x : Ident}
    (hx : env.find x = some (.holds (.u32 src))) (he : eval ρ env w e = some (.u32 k))
    (hk : k.toNat < 32) :
    eval ρ env w (bitAtExpr (.var x) e) = some (.ofBool (bitAt src k)) := by
  simp [bitAtExpr, bitAt, hx, he, hk]

theorem exec_emitUnshifted (hsr : σ.env.find sr = some (.holds (.u16 status)))
    (hx : sr ∉ locals ordinal) :
    exec ρ (emitUnshifted sr (Names.make ordinal)) (declaredState σ ordinal src count) =
      some (shiftedState σ ordinal src count
        { result := src, carry := false, extendValue := extendBit status }) := by
  simp only [locals, Names.make, List.mem_cons, List.not_mem_nil, or_false, not_or] at hx
  simp [emitUnshifted, declaredState, declaredEnv, shiftedState, shiftedEnv, Names.make, eval_currentX status, hsr, hx]
  rfl

theorem exec_emitShifted {result carry : Expr} {r : BitVec 32} {c : Bool}
    (hr : ∀ env, Reads env ordinal src count → eval ρ env σ.world result = some (.u32 r))
    (hc : ∀ env, Reads env ordinal src count → eval ρ env σ.world carry = some (.ofBool c)) :
    exec ρ (emitShifted (Names.make ordinal) result carry) (declaredState σ ordinal src count) =
      some (shiftedState σ ordinal src count { result := r, carry := c, extendValue := c }) := by
  have hr₁ := hr _ (declaredState_reads (σ := σ))
  have hc₁ := hc ((declaredState σ ordinal src count).env.set (Names.make ordinal).result (.holds (.u32 r)))
    ⟨by simp [declaredState, declaredEnv, Names.make], by simp [declaredState, declaredEnv, Names.make]⟩
  simp only [declaredState, declaredEnv, Names.make] at hr₁ hc₁
  simp at hr₁ hc₁
  simp [emitShifted, declaredState, declaredEnv, shiftedState, shiftedEnv, Names.make, hr₁, hc₁]
  rfl

theorem exec_emitCleared :
    exec ρ (emitCleared (Names.make ordinal)) (declaredState σ ordinal src count) =
      some (shiftedState σ ordinal src count
        { result := 0#32, carry := false, extendValue := false }) := by
  simp [emitCleared, declaredState, declaredEnv, shiftedState, shiftedEnv, Names.make]
  rfl

/-- A case per region of the count, as the host takes them. -/
theorem exec_emitRegions {width : MemoryAccessWidth} {within exact beyond : Stmt} {s : Shifted}
    (h0 : count = 0#32 → exec ρ (emitUnshifted sr (Names.make ordinal)) (declaredState σ ordinal src count) =
      some (shiftedState σ ordinal src count s))
    (hlt : count ≠ 0#32 → count < widthBits width →
      exec ρ within (declaredState σ ordinal src count) =
        some (shiftedState σ ordinal src count s))
    (heq : count ≠ 0#32 → count = widthBits width →
      exec ρ exact (declaredState σ ordinal src count) =
        some (shiftedState σ ordinal src count s))
    (hgt : count ≠ 0#32 → ¬ count < widthBits width → count ≠ widthBits width →
      exec ρ beyond (declaredState σ ordinal src count) =
        some (shiftedState σ ordinal src count s)) :
    exec ρ (emitRegions sr (Names.make ordinal) width within exact beyond)
        (declaredState σ ordinal src count) =
      some (shiftedState σ ordinal src count s) := by
  have hl : (shiftedState σ ordinal src count s).env.length =
      (declaredState σ ordinal src count).env.length := by
    simp [shiftedState, declaredState, shiftedEnv, declaredEnv]
  have hcount := (declaredState_reads : Reads (declaredState σ ordinal src count).env ordinal src count).count
  apply exec_ite (b := decide (count = 0#32))
  · simp [hcount]
  · intro h
    exact h0 (of_decide_eq_true h)
  · intro h
    have hne := of_decide_eq_false h
    apply exec_ite (b := decide (count < widthBits width))
    · simp [hcount]
    · intro h
      exact hlt hne (of_decide_eq_true h)
    · intro h
      have hnlt := of_decide_eq_false h
      apply exec_ite (b := decide (count = widthBits width))
      · simp [hcount]
      · intro h
        exact heq hne (of_decide_eq_true h)
      · intro h
        exact hgt hne hnlt (of_decide_eq_false h)
      · exact hl
    · exact hl
  · exact hl

theorem exec_emitLsl (width : MemoryAccessWidth)
    (hsr : σ.env.find sr = some (.holds (.u16 status))) (hx : sr ∉ locals ordinal) :
    exec ρ (emitLsl sr (Names.make ordinal) width) (declaredState σ ordinal src count) =
      some (shiftedState σ ordinal src count (lsl src count width (extendBit status))) := by
  have hbits : widthBits width ≤ 32#32 := by cases width <;> decide
  apply exec_emitRegions
  · intro h0
    rw [exec_emitUnshifted hsr hx]
    simp [lsl, h0]
  · intro h0 hlt
    have hback := count_sub_lt hbits h0 hlt
    have hcount : count.toNat < 32 := by bv_omega
    rw [exec_emitShifted (r := (src <<< count) &&& mask width) (c := bitAt src (widthBits width - count))]
    · simp [lsl, h0, hlt]
    · intro env he
      simp [he.src, he.count, hcount]
    · intro env he
      apply eval_bitAtExpr he.src _ hback
      simp [he.count]
  · intro h0 heq
    rw [exec_emitShifted (r := 0#32) (c := decide (src &&& 1#32 ≠ 0#32))]
    · rw [heq] at h0
      simp [lsl, h0, heq]
    · intro env he
      simp
    · intro env he
      simp [he.src]
  · intro h0 hnlt hne
    rw [exec_emitCleared]
    simp [lsl, h0, hnlt, hne]

theorem exec_emitLsr (width : MemoryAccessWidth)
    (hsr : σ.env.find sr = some (.holds (.u16 status))) (hx : sr ∉ locals ordinal) :
    exec ρ (emitLsr sr (Names.make ordinal) width) (declaredState σ ordinal src count) =
      some (shiftedState σ ordinal src count (lsr src count width (extendBit status))) := by
  have hbits : widthBits width ≤ 32#32 := by cases width <;> decide
  apply exec_emitRegions
  · intro h0
    rw [exec_emitUnshifted hsr hx]
    simp [lsr, h0]
  · intro h0 hlt
    have hcount : count.toNat < 32 := by bv_omega
    have hback : (count - 1#32).toNat < 32 := by bv_omega
    rw [exec_emitShifted (r := src >>> count) (c := bitAt src (count - 1#32))]
    · simp [lsr, h0, hlt]
    · intro env he
      simp [he.src, he.count, hcount]
    · intro env he
      apply eval_bitAtExpr he.src _ hback
      simp [he.count]
  · intro h0 heq
    have hback : (widthBits width - 1#32).toNat < 32 := by cases width <;> decide
    rw [exec_emitShifted (r := 0#32) (c := bitAt src (widthBits width - 1#32))]
    · rw [heq] at h0
      simp [lsr, h0, heq]
    · intro env he
      simp
    · intro env he
      apply eval_bitAtExpr he.src _ hback
      simp
  · intro h0 hnlt hne
    rw [exec_emitCleared]
    simp [lsr, h0, hnlt, hne]

theorem exec_assignOverflow {e : Expr} {b : Bool} {s : Shifted}
    (he : eval ρ (shiftedState σ ordinal src count s).env σ.world e = some (.ofBool b)) :
    exec ρ (.assign (Names.make ordinal).overflow e) (shiftedState σ ordinal src count s) =
      some (shiftedState σ ordinal src count { s with overflow := b }) := by
  have he' : eval ρ (shiftedState σ ordinal src count s).env (shiftedState σ ordinal src count s).world e = _ := he
  rw [exec, he']
  simp [shiftedState, shiftedEnv, Names.make]

theorem shiftedState_reads {s : Shifted} :
    Reads (shiftedState σ ordinal src count s).env ordinal src count where
  src := by simp [shiftedState, shiftedEnv, Names.make]
  count := by simp [shiftedState, shiftedEnv, Names.make]

/-- The mask of the top `count + 1` bits. -/
def regionMask (width : MemoryAccessWidth) (count : BitVec 32) : BitVec 32 :=
  if widthBits width ≤ count + 1#32 then mask width
  else mask width &&& ~~~(mask width >>> (count + 1#32))

theorem exec_region (width : MemoryAccessWidth) {s : Shifted} (hlt : count < widthBits width) :
    exec ρ
        (emitRegion (Names.make ordinal) width (.numbered "sr_region_bits_" (ordinal + 6))
          (.numbered "sr_region_mask_" (ordinal + 6)) (.numbered "sr_region_" (ordinal + 6)))
        (shiftedState σ ordinal src count s) =
      some (shiftedState σ ordinal src count
        { s with
          overflow := !(decide (src &&& regionMask width count = 0#32) ||
            decide (src &&& regionMask width count = regionMask width count)) }) := by
  have hbits : widthBits width ≤ 32#32 := by cases width <;> decide
  by_cases hfull : widthBits width ≤ count + 1#32
  · simp [emitRegion, shiftedState, shiftedEnv, Names.make, regionMask, hfull, State.leave, Nat.add_assoc]
  · have hshift : (count + 1#32).toNat < 32 := by bv_omega
    simp [emitRegion, shiftedState, shiftedEnv, Names.make, regionMask, hfull, State.leave, hshift,
      Nat.add_assoc, -BitVec.toNat_add]

theorem exec_emitAsl (width : MemoryAccessWidth)
    (hsr : σ.env.find sr = some (.holds (.u16 status))) (hx : sr ∉ locals ordinal) :
    exec ρ (emitKind sr (Names.make ordinal) width .asl ordinal)
        (declaredState σ ordinal src count) =
      some (shiftedState σ ordinal src count (asl src count width (extendBit status))) := by
  have hbits : widthBits width ≤ 32#32 := by cases width <;> decide
  have hcount : (declaredState σ ordinal src count).env.find (Names.make ordinal).count =
      some (.holds (.u32 count)) := declaredState_reads.count
  have hl : ∀ s : Shifted, (shiftedState σ ordinal src count s).env.length =
      (declaredState σ ordinal src count).env.length := by
    intro s
    simp [shiftedState, declaredState, shiftedEnv, declaredEnv]
  have hnonzero : ∀ s : Shifted, eval ρ (shiftedState σ ordinal src count s).env σ.world
      (.binop .ne (.var (Names.make ordinal).src) (u32C 0)) =
        some (.ofBool (decide (src ≠ 0#32))) := by
    intro s
    simp [shiftedState_reads.src]
  apply exec_ite (b := decide (count = 0#32))
  · simp [hcount]
  · intro h0
    have h0 := of_decide_eq_true h0
    simp only [Stmt.all, exec_seq, exec_emitUnshifted hsr hx, Option.bind_some]
    rw [exec_assignOverflow (b := false) rfl]
    simp [asl, h0]
  · intro h0
    have h0 := of_decide_eq_false h0
    apply exec_ite (b := decide (count < widthBits width))
    · simp [hcount]
    · intro hlt
      have hlt := of_decide_eq_true hlt
      have hback := count_sub_lt hbits h0 hlt
      have hsmall : count.toNat < 32 := by bv_omega
      have hshift : exec ρ
          (emitShifted (Names.make ordinal)
            ((.var (Names.make ordinal).src <<< .var (Names.make ordinal).count) &&&
              u32C (mask width))
            (bitAtExpr (.var (Names.make ordinal).src)
              (u32C (widthBits width) - .var (Names.make ordinal).count)))
          (declaredState σ ordinal src count) = _ :=
        exec_emitShifted (r := (src <<< count) &&& mask width)
          (c := bitAt src (widthBits width - count))
          (fun env he => by simp [he.src, he.count, hsmall])
          (fun env he => eval_bitAtExpr he.src (by simp [he.count]) hback)
      simp only [Stmt.all, exec_seq, hshift, Option.bind_some]
      rw [exec_region width hlt]
      simp [asl, h0, hlt, regionMask]
    · intro hlt
      have hlt := of_decide_eq_false hlt
      apply exec_ite (b := decide (count = widthBits width))
      · simp [hcount]
      · intro heq
        have heq := of_decide_eq_true heq
        have hshift : exec ρ
            (emitShifted (Names.make ordinal) (u32C 0)
              (.binop .ne (.var (Names.make ordinal).src &&& u32C 1) (u32C 0)))
            (declaredState σ ordinal src count) = _ :=
          exec_emitShifted (r := 0#32) (c := decide (src &&& 1#32 ≠ 0#32))
            (fun env he => by simp) (fun env he => by simp [he.src])
        simp only [Stmt.all, exec_seq, hshift, Option.bind_some]
        rw [exec_assignOverflow (hnonzero _)]
        rw [heq] at h0
        simp [asl, h0, heq]
      · intro heq
        have heq := of_decide_eq_false heq
        simp only [Stmt.all, exec_seq, exec_emitCleared, Option.bind_some]
        rw [exec_assignOverflow (hnonzero _)]
        simp [asl, h0, hlt, heq]
      · exact hl _
    · exact hl _
  · exact hl _

theorem exec_emitAsr (width : MemoryAccessWidth)
    (hsr : σ.env.find sr = some (.holds (.u16 status))) (hx : sr ∉ locals ordinal) :
    exec ρ (emitKind sr (Names.make ordinal) width .asr ordinal)
        (declaredState σ ordinal src count) =
      some
        { σ with
          env := (.numbered "sr_neg_" (ordinal + 6), .holds (.ofBool (decide (src &&& sign width ≠ 0#32)))) ::
            (shiftedEnv ordinal src count (asr src count width (extendBit status)) ++ σ.env) } := by
  have hbits : widthBits width ≤ 32#32 := by cases width <;> decide
  simp only [locals, Names.make, List.mem_cons, List.not_mem_nil, or_false, not_or] at hx
  simp only [emitKind, emitAsr, emitUnshifted, bitAtExpr, declaredState, declaredEnv, shiftedEnv, Names.make]
  by_cases h0 : count = 0#32
  · simp [h0, asr, State.leave, eval_currentX status, hsr, hx]
    rfl
  · by_cases hlt : count < widthBits width
    · have hsmall : count.toNat < 32 := by bv_omega
      have hback : (count - 1#32).toNat < 32 := by bv_omega
      by_cases hn : src &&& sign width = 0#32
      · simp [h0, hlt, hn, asr, bitAt, State.leave, hsmall, hback, -BitVec.toNat_sub]
        rfl
      · simp [h0, hlt, hn, asr, bitAt, State.leave, hsmall, hback, -BitVec.toNat_sub]
        rfl
    · by_cases hn : src &&& sign width = 0#32
      · simp [h0, hlt, hn, asr, State.leave]
        rfl
      · simp [h0, hlt, hn, asr, State.leave]
        exact ⟨rfl, rfl⟩

theorem exec_emitRotate (left : Bool) (width : MemoryAccessWidth)
    (hsr : σ.env.find sr = some (.holds (.u16 status))) (hx : sr ∉ locals ordinal) :
    exec ρ (emitRotate sr (Names.make ordinal) width left (.numbered "sr_effective_" (ordinal + 6)))
        (declaredState σ ordinal src count) =
      some (shiftedState σ ordinal src count
        { result := (rotate left src count width).1, carry := (rotate left src count width).2, extendValue := extendBit status }) := by
  simp only [locals, Names.make, List.mem_cons, List.not_mem_nil, or_false, not_or] at hx
  have heff : count &&& (widthBits width - 1#32) < widthBits width := by
    rw [BitVec.lt_def, BitVec.toNat_and]
    apply Nat.lt_of_le_of_lt Nat.and_le_right
    cases width <;> decide
  have hbits : widthBits width ≤ 32#32 := by cases width <;> decide
  simp only [emitRotate, declaredState, shiftedState, declaredEnv, shiftedEnv, Names.make, rotate]
  generalize hbv : widthBits width = bits at heff hbits ⊢
  by_cases h0 : count = 0#32
  · simp [h0, State.leave, eval_currentX status, hsr, hx]
    rfl
  · generalize heffv : count &&& (bits - 1#32) = effective at heff ⊢
    have hsmall : effective.toNat < 32 := by bv_omega
    by_cases he : effective = 0#32
    · cases left
      all_goals
        simp [h0, eval_currentX status, hsr, hx, he, heffv, State.leave, -BitVec.toNat_sub]
        rfl
    · have hback : (bits - effective).toNat < 32 := count_sub_lt hbits he heff
      cases left
      all_goals
        simp [h0, eval_currentX status, hsr, hx, he, heffv, State.leave, hsmall, hback, -BitVec.toNat_sub]
        rfl

/-- The operand with X above it. -/
def ringOf (src : BitVec 32) (width : MemoryAccessWidth) (x : Bool) : BitVec 64 :=
  ((flag x 1#32).setWidth 64 <<< widthBits width) ||| src.setWidth 64

def turned (left : Bool) (ring : BitVec 64) (effective ringBits : BitVec 32) : BitVec 64 :=
  let ringMask := (1#64 <<< ringBits) - 1#64
  if effective = 0#32 then ring
  else if left then ((ring <<< effective) ||| (ring >>> (ringBits - effective))) &&& ringMask
  else ((ring >>> effective) ||| (ring <<< (ringBits - effective))) &&& ringMask

/-- The objects ROXL and ROXR declare on top of the shared six. -/
def ringEnv (left : Bool) (ordinal : ℕ) (src count : BitVec 32) (width : MemoryAccessWidth)
    (x : Bool) : Env :=
  let ringBits := widthBits width + 1#32
  let effective := count % ringBits
  [(.numbered "sr_rotated_" (ordinal + 7),
    .holds (.u64 (turned left (ringOf src width x) effective ringBits))),
   (.numbered "sr_effective_" (ordinal + 8), .holds (.u32 effective)),
   (.numbered "sr_ring_" (ordinal + 6), .holds (.u64 (ringOf src width x)))]

theorem rotateExtended_eq (left : Bool) (width : MemoryAccessWidth) (x : Bool) :
    rotateExtended left src count width x =
      let ringBits := widthBits width + 1#32
      let ring := turned left (ringOf src width x) (count % ringBits) ringBits
      let newExtend := decide ((ring >>> widthBits width) &&& 1#64 ≠ 0#64)
      { result := (ring &&& (mask width).setWidth 64).setWidth 32
        carry := newExtend
        extendValue := newExtend } := rfl

theorem exec_emitRotateExtended (left : Bool) (width : MemoryAccessWidth)
    (hsr : σ.env.find sr = some (.holds (.u16 status))) (hx : sr ∉ locals ordinal) :
    exec ρ
        (emitRotateExtended sr (Names.make ordinal) width left
          (.numbered "sr_ring_" (ordinal + 6)) (.numbered "sr_rotated_" (ordinal + 7))
          (.numbered "sr_effective_" (ordinal + 8)))
        (declaredState σ ordinal src count) =
      some
        { σ with
          env := ringEnv left ordinal src count width (extendBit status) ++
            (shiftedEnv ordinal src count
              (rotateExtended left src count width (extendBit status)) ++ σ.env) } := by
  simp only [locals, Names.make, List.mem_cons, List.not_mem_nil, or_false, not_or] at hx
  have hbits : widthBits width ≤ 32#32 := by cases width <;> decide
  have hbits64 : (widthBits width).toNat < 64 := by cases width <;> decide
  have hring : (widthBits width + 1#32).toNat < 64 := by cases width <;> decide
  have hzero : widthBits width + 1#32 ≠ 0#32 := by cases width <;> decide
  have heff : (count % (widthBits width + 1#32)).toNat < (widthBits width + 1#32).toNat := by
    rw [BitVec.toNat_umod]
    apply Nat.mod_lt
    cases width <;> decide
  simp only [rotateExtended_eq, emitRotateExtended, declaredState, declaredEnv, shiftedEnv,
    ringEnv, Names.make]
  have hringv : ((if extendBit status then 1#64 else 0#64) <<< (widthBits width).toNat) |||
      src.setWidth 64 = ringOf src width (extendBit status) := by
    cases hxb : extendBit status <;> simp [ringOf]
  generalize ringOf src width (extendBit status) = ring at *
  generalize widthBits width = bits at *
  generalize bits + 1#32 = ringBits at *
  generalize heffv : count % ringBits = effective at *
  by_cases he : effective = 0#32
  · simp [eval_currentX status, hsr, hx, he, hzero, hbits64, hringv, heffv, turned, State.leave]
    rfl
  · have hback : (ringBits - effective).toNat < 64 := by bv_omega
    have hsmall : effective.toNat < 64 := by omega
    cases left
    all_goals
      simp [eval_currentX status, hsr, hx, he, hzero, hbits64, hring, hsmall, hback, hringv, heffv, turned,
        State.leave, -BitVec.toNat_sub]
      rfl

/-- What a kind leaves in the six objects; the rotates keep X. -/
def shiftedOf (kind : ShiftRotateKind) (src count : BitVec 32) (width : MemoryAccessWidth)
    (x : Bool) : Shifted :=
  match kind with
  | .lsl => lsl src count width x
  | .lsr => lsr src count width x
  | .asr => asr src count width x
  | .asl => asl src count width x
  | .rol =>
      let r := rotate true src count width
      { result := r.1, carry := r.2, extendValue := x }
  | .ror =>
      let r := rotate false src count width
      { result := r.1, carry := r.2, extendValue := x }
  | .roxl => rotateExtended true src count width x
  | .roxr => rotateExtended false src count width x

/-- Objects a kind declares in passing hide neither the six nor the status register. -/
structure Apart (extra : Env) (ordinal : ℕ) (sr : Ident) : Prop where
  status : extra.find sr = none
  result : extra.find (Names.make ordinal).result = none
  carry : extra.find (Names.make ordinal).carry = none
  extend : extra.find (Names.make ordinal).extend = none
  overflow : extra.find (Names.make ordinal).overflow = none

theorem exec_emitKind (kind : ShiftRotateKind) (width : MemoryAccessWidth)
    (hsr : σ.env.find sr = some (.holds (.u16 status))) (hx : sr ∉ locals ordinal) :
    ∃ extra : Env, Apart extra ordinal sr ∧
      exec ρ (emitKind sr (Names.make ordinal) width kind ordinal)
          (declaredState σ ordinal src count) =
        some
          { σ with
            env := extra ++
              (shiftedEnv ordinal src count (shiftedOf kind src count width (extendBit status)) ++
                σ.env) } := by
  have hx' := hx
  simp only [locals, Names.make, List.mem_cons, List.not_mem_nil, or_false, not_or] at hx'
  cases kind
  case lsl => exact ⟨[], ⟨rfl, rfl, rfl, rfl, rfl⟩, exec_emitLsl width hsr hx⟩
  case lsr => exact ⟨[], ⟨rfl, rfl, rfl, rfl, rfl⟩, exec_emitLsr width hsr hx⟩
  case asl => exact ⟨[], ⟨rfl, rfl, rfl, rfl, rfl⟩, exec_emitAsl width hsr hx⟩
  case rol => exact ⟨[], ⟨rfl, rfl, rfl, rfl, rfl⟩, exec_emitRotate true width hsr hx⟩
  case ror => exact ⟨[], ⟨rfl, rfl, rfl, rfl, rfl⟩, exec_emitRotate false width hsr hx⟩
  case asr =>
    refine ⟨[_], ?_, exec_emitAsr width hsr hx⟩
    constructor
    all_goals simp [Names.make, hx']
  case roxl =>
    refine ⟨_, ?_, exec_emitRotateExtended true width hsr hx⟩
    constructor
    all_goals simp [ringEnv, Names.make, hx']
  case roxr =>
    refine ⟨_, ?_, exec_emitRotateExtended false width hsr hx⟩
    constructor
    all_goals simp [ringEnv, Names.make, hx']

theorem exec_emitPrologue {original number : Expr} {o : BitVec 32} (width : MemoryAccessWidth)
    (ho : eval ρ σ.env σ.world original = some (.u32 o))
    (hc : eval ρ σ.env σ.world number = some (.u32 count))
    (hfresh : ∀ x ∈ locals ordinal, ¬ original.mentions x) :
    exec ρ (emitPrologue (Names.make ordinal) width original number) σ =
      some (declaredState σ ordinal (o &&& mask width) count) := by
  have hcount := hfresh (.numbered "sr_count_" ordinal) (by simp [locals, Names.make])
  simp [emitPrologue, declaredState, declaredEnv, Names.make, ho, hc, eval_cons, hcount]

theorem flag_and {w : ℕ} (b : Bool) (m k : BitVec w) : flag b m &&& k = flag b (m &&& k) := by
  cases b <;> simp

theorem ccr_finish (status : BitVec 16) (width : MemoryAccessWidth) (s : Shifted) :
    ccr status (finish width s) =
      (status &&& 0xFFE0#16) ||| flag s.extendValue 0x10#16 |||
        flag (decide (s.result &&& sign width ≠ 0#32)) 0x08#16 |||
        flag (decide (s.result = 0#32)) 0x04#16 ||| flag s.overflow 0x02#16 |||
        flag s.carry 0x01#16 := by
  have hkept : status &&& 0xFFE0#16 &&& ~~~0x10#16 = status &&& 0xFFE0#16 := by
    rw [BitVec.and_assoc]
    rfl
  simp only [ccr, finish, if_true, BitVec.and_or_distrib_right, flag_and, hkept]
  generalize status &&& 0xFFE0#16 = kept
  generalize flag s.extendValue 0x10#16 = x
  calc
    _ = kept ||| flag (decide (s.result &&& sign width ≠ 0#32)) 0x08#16 |||
        flag (decide (s.result = 0#32)) 0x04#16 ||| flag s.overflow 0x02#16 |||
        flag s.carry 0x01#16 ||| x := rfl
    _ = _ := by ac_rfl

theorem ccr_finishRotate (status : BitVec 16) (width : MemoryAccessWidth)
    (r : BitVec 32 × Bool) :
    ccr status (finishRotate width r) =
      ccr status
        (finish width { result := r.1, carry := r.2, extendValue := extendBit status }) := by
  have hx : flag (extendBit status) 0x10#16 = status &&& 0x10#16 :=
    mask_bit (i := 4) status (by decide)
  simp [ccr, finish, finishRotate, hx]

theorem ccr_evaluate (kind : ShiftRotateKind) (o : BitVec 32) (width : MemoryAccessWidth) :
    ccr status (evaluate kind o count width (extendBit status)) =
      ccr status
        (finish width (shiftedOf kind (o &&& mask width) count width (extendBit status))) := by
  cases kind
  case rol => exact ccr_finishRotate status width _
  case ror => exact ccr_finishRotate status width _
  all_goals rfl

theorem result_evaluate (kind : ShiftRotateKind) (o : BitVec 32) (width : MemoryAccessWidth)
    (x : Bool) :
    (evaluate kind o count width x).result =
      (shiftedOf kind (o &&& mask width) count width x).result := by
  cases kind <;> rfl

theorem exec_emitStatus {extra : Env} {s : Shifted} (width : MemoryAccessWidth)
    (hsr : σ.env.find sr = some (.holds (.u16 status))) (hx : sr ∉ locals ordinal)
    (ha : Apart extra ordinal sr) :
    exec ρ (emitStatus sr (Names.make ordinal) width)
        { σ with env := extra ++ (shiftedEnv ordinal src count s ++ σ.env) } =
      some
        { σ with
          env := extra ++ (shiftedEnv ordinal src count s ++
            withStatus σ sr (ccr status (finish width s))) } := by
  simp only [locals, Names.make, List.mem_cons, List.not_mem_nil, or_false, not_or] at hx
  have hs : (shiftedEnv ordinal src count s).find sr = none := by
    simp [shiftedEnv, Names.make, hx]
  have hstatus : (extra ++ (shiftedEnv ordinal src count s ++ σ.env)).find sr = _ :=
    (Env.find_append_of_none ha.status).trans ((Env.find_append_of_none hs).trans hsr)
  have hresult : (extra ++ (shiftedEnv ordinal src count s ++ σ.env)).find
      (Names.make ordinal).result = some (.holds (.u32 s.result)) := by
    rw [Env.find_append_of_none ha.result]
    simp [shiftedEnv, Names.make]
  have hcarry : (extra ++ (shiftedEnv ordinal src count s ++ σ.env)).find
      (Names.make ordinal).carry = some (.holds (.ofBool s.carry)) := by
    rw [Env.find_append_of_none ha.carry]
    simp [shiftedEnv, Names.make]
  have hextend : (extra ++ (shiftedEnv ordinal src count s ++ σ.env)).find
      (Names.make ordinal).extend = some (.holds (.ofBool s.extendValue)) := by
    rw [Env.find_append_of_none ha.extend]
    simp [shiftedEnv, Names.make]
  have hoverflow : (extra ++ (shiftedEnv ordinal src count s ++ σ.env)).find
      (Names.make ordinal).overflow = some (.holds (.ofBool s.overflow)) := by
    rw [Env.find_append_of_none ha.overflow]
    simp [shiftedEnv, Names.make]
  rw [ccr_finish]
  simp [emitStatus, hstatus, hresult, hcarry, hextend, hoverflow, setWidth_ite,
    Env.set_append_of_none ha.status, Env.set_append_of_none hs, withStatus]
  simp [flag]

theorem runs_emitCUpdate {original number : Expr} {o : BitVec 32} (kind : ShiftRotateKind)
    (width : MemoryAccessWidth) (ordinal : ℕ)
    (hsr : σ.env.find sr = some (.holds (.u16 status)))
    (ho : eval ρ σ.env σ.world original = some (.u32 o))
    (hc : eval ρ σ.env σ.world number = some (.u32 count))
    (hx : sr ∉ locals ordinal) (hfresh : ∀ x ∈ locals ordinal, ¬ original.mentions x) :
    let emitted := emitCUpdate sr width kind original number ordinal
    let r := evaluate kind o count width (extendBit status)
    Runs ρ emitted.1 σ (withStatus σ sr (ccr status r)) [(emitted.2, .u32 r.result)] := by
  intro emitted r
  let s := shiftedOf kind (o &&& mask width) count width (extendBit status)
  obtain ⟨extra, ha, hkind⟩ : ∃ extra : Env, Apart extra ordinal sr ∧
      exec ρ (emitKind sr (Names.make ordinal) width kind ordinal)
          (declaredState σ ordinal (o &&& mask width) count) =
        some { σ with env := extra ++ (shiftedEnv ordinal (o &&& mask width) count s ++ σ.env) } :=
    exec_emitKind kind width hsr hx
  refine ⟨extra ++ shiftedEnv ordinal (o &&& mask width) count s, ?_, ?_⟩
  · intro out hout
    rw [List.mem_singleton] at hout
    subst hout
    have hresult : r.result = s.result := result_evaluate kind o width (extendBit status)
    simp only [emitted, emitCUpdate]
    rw [Env.find_append_of_none ha.result, hresult]
    simp [shiftedEnv, Names.make]
  · simp only [emitted, emitCUpdate, Stmt.all, exec_seq]
    rw [exec_emitPrologue width ho hc hfresh, Option.bind_some, exec_seq, hkind,
      Option.bind_some, exec_emitStatus width hsr hx ha, List.append_assoc, ← ccr_evaluate]

end Segarecomp.M68k.Effects.ShiftRotate
