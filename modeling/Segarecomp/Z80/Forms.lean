import Mathlib.Data.List.Basic
import Mathlib.Data.BitVec

/-! The NMOS Z80 encoding surface: the seven opcode spaces, the classification of one
opcode byte of one space, and the interned form table with its static timing. -/

namespace Segarecomp.Z80

inductive Space
  | base | cb | ed | dd | fd | ddcb | fdcb
  deriving DecidableEq, Repr

inductive Mnemonic
  | nop | ld | inc | dec | rlca | rrca | rla | rra | ex | add | djnz | jr | daa | cpl | scf | ccf
  | halt | adc | sub | sbc | and_ | xor_ | or_ | cp | ret | pop | jp | call | push | rst | exx | out
  | in_ | di | ei | rlc | rrc | rl | rr | sla | sra | sll | srl | bit | res | set
  | neg | retn | reti | im | rrd | rld | ldi | cpi | ini | outi | ldd | cpd | ind | outd | ldir | cpir
  | inir | otir | lddr | cpdr | indr | otdr
  deriving DecidableEq, Repr

inductive Operand
  | none | a | r | rr | rr2 | rr_ind | hl | hl_ind | de | sp | sp_ind | nn | n | e | p | cc | cc4
  | bit | af | af_alt | i | r_refresh | im0 | im1 | im2 | n_port | c_port | nn_ind | flags_only
  | zero | ed_undefined | rr_ed | ix | iy | ix_d | iy_d | ix_half | iy_half | rr_ix | rr_iy
  | ix_d_copy_r | iy_d_copy_r
  deriving DecidableEq, Repr

inductive TimingClass
  | fixed | conditional | repeat_ | halt
  deriving DecidableEq, Repr

structure Timing where
  klass : TimingClass := .fixed
  primary : Nat := 0
  alternate : Nat := 0
  deriving DecidableEq, Repr

abbrev FormId := Nat
def kNoForm : FormId := 0xFFFF
def kNoIndex : Nat := 0xFF

structure FormDescriptor where
  id : FormId := kNoForm
  space : Space := .base
  mnemonic : Mnemonic := .nop
  dst : Operand := .none
  src : Operand := .none
  documented : Bool := true
  aliasOf : FormId := kNoForm
  length : Nat := 1
  m1Fetches : Nat := 1
  opcodeIndex : Nat := 0
  displacementIndex : Nat := kNoIndex
  immediateIndex : Nat := kNoIndex
  immediateSize : Nat := 0
  timing : Timing := {}
  deriving DecidableEq, Repr

inductive ByteClassKind
  | form | escape_cb | escape_ed | escape_dd | escape_fd | escape_ddcb | escape_fdcb
  | prefix_chain | prefix_ignored | prefix_ignored_before_ed
  deriving DecidableEq, Repr

structure ByteClass where
  kind : ByteClassKind := .form
  form : FormId := kNoForm
  deriving DecidableEq, Repr

/-- A form identity before interning. -/
structure Key where
  space : Space := .base
  mnemonic : Mnemonic := .nop
  dst : Operand := .none
  src : Operand := .none
  documented : Bool := true
  hasAlias : Bool := false
  aliasSpace : Space := .base
  deriving DecidableEq, Repr

structure Classified where
  kind : ByteClassKind := .form
  key : Key := {}
  deriving DecidableEq, Repr

def kAlu : Nat → Mnemonic
  | 0 => .add | 1 => .adc | 2 => .sub | 3 => .sbc
  | 4 => .and_ | 5 => .xor_ | 6 => .or_ | _ => .cp

def kShift : Nat → Mnemonic
  | 0 => .rlc | 1 => .rrc | 2 => .rl | 3 => .rr
  | 4 => .sla | 5 => .sra | 6 => .sll | _ => .srl

def make (space : Space) (mnemonic : Mnemonic) (dst src : Operand) (documented : Bool := true) : Key :=
  { space, mnemonic, dst, src, documented }

def aliasKey (key : Key) (targetSpace : Space) : Key :=
  { key with documented := false, hasAlias := true, aliasSpace := targetSpace }

def form (key : Key) : Classified := ⟨.form, key⟩

/-- The fields `x y z p q` of an opcode byte. -/
def fieldX (b : BitVec 8) : Nat := b.toNat >>> 6
def fieldY (b : BitVec 8) : Nat := (b.toNat >>> 3) &&& 7
def fieldZ (b : BitVec 8) : Nat := b.toNat &&& 7
def fieldP (b : BitVec 8) : Nat := fieldY b >>> 1
def fieldQ (b : BitVec 8) : Nat := fieldY b &&& 1

def classifyBase (b : BitVec 8) : Classified :=
  let x := fieldX b
  let y := fieldY b
  let z := fieldZ b
  let p := fieldP b
  let q := fieldQ b
  let mk := fun (m : Mnemonic) (d s : Operand) => form (make .base m d s)
  match x with
  | 0 =>
    match z with
    | 0 =>
      if y = 0 then mk .nop .none .none
      else if y = 1 then mk .ex .af .af_alt
      else if y = 2 then mk .djnz .none .e
      else if y = 3 then mk .jr .none .e
      else mk .jr .cc4 .e
    | 1 => if q = 0 then mk .ld .rr .nn else mk .add .hl .rr
    | 2 =>
      if q = 0 then
        if p < 2 then mk .ld .rr_ind .a
        else if p = 2 then mk .ld .nn_ind .hl else mk .ld .nn_ind .a
      else if p < 2 then mk .ld .a .rr_ind
      else if p = 2 then mk .ld .hl .nn_ind else mk .ld .a .nn_ind
    | 3 => mk (if q = 0 then .inc else .dec) .rr .none
    | 4 => mk .inc (if y = 6 then .hl_ind else .r) .none
    | 5 => mk .dec (if y = 6 then .hl_ind else .r) .none
    | 6 => mk .ld (if y = 6 then .hl_ind else .r) .n
    | _ =>
      let op : Mnemonic := match y with
        | 0 => .rlca | 1 => .rrca | 2 => .rla | 3 => .rra
        | 4 => .daa | 5 => .cpl | 6 => .scf | _ => .ccf
      mk op .a .none
  | 1 =>
    if z = 6 ∧ y = 6 then mk .halt .none .none
    else if z = 6 then mk .ld .r .hl_ind
    else if y = 6 then mk .ld .hl_ind .r
    else mk .ld .r .r
  | 2 => mk (kAlu y) .a (if z = 6 then .hl_ind else .r)
  | _ =>
    match z with
    | 0 => mk .ret .cc .none
    | 1 =>
      if q = 0 then mk .pop .rr2 .none
      else if p = 0 then mk .ret .none .none
      else if p = 1 then mk .exx .none .none
      else if p = 2 then mk .jp .none .hl
      else mk .ld .sp .hl
    | 2 => mk .jp .cc .nn
    | 3 =>
      match y with
      | 0 => mk .jp .none .nn
      | 1 => ⟨.escape_cb, {}⟩
      | 2 => mk .out .n_port .a
      | 3 => mk .in_ .a .n_port
      | 4 => mk .ex .sp_ind .hl
      | 5 => mk .ex .de .hl
      | 6 => mk .di .none .none
      | _ => mk .ei .none .none
    | 4 => mk .call .cc .nn
    | 5 =>
      if q = 0 then mk .push .none .rr2
      else if p = 0 then mk .call .none .nn
      else if p = 1 then ⟨.escape_dd, {}⟩
      else if p = 2 then ⟨.escape_ed, {}⟩
      else ⟨.escape_fd, {}⟩
    | 6 => mk (kAlu y) .a .n
    | _ => mk .rst .none .p

def classifyCb (b : BitVec 8) : Classified :=
  let x := fieldX b
  let y := fieldY b
  let z := fieldZ b
  let target : Operand := if z = 6 then .hl_ind else .r
  if x = 0 then form (make .cb (kShift y) target .none (kShift y != .sll))
  else
    let m : Mnemonic := if x = 1 then .bit else if x = 2 then .res else .set
    form (make .cb m .bit target)

def classifyEd (b : BitVec 8) : Classified :=
  let nop := form (make .ed .nop .none .ed_undefined false)
  let mk := fun (m : Mnemonic) (d s : Operand) => form (make .ed m d s)
  let y := fieldY b
  let z := fieldZ b
  let p := fieldP b
  let q := fieldQ b
  if 0x40 ≤ b.toNat ∧ b.toNat < 0x80 then
    match z with
    | 0 =>
      if y = 6 then form (make .ed .in_ .flags_only .c_port false) else mk .in_ .r .c_port
    | 1 =>
      if y = 6 then form (make .ed .out .c_port .zero false) else mk .out .c_port .r
    | 2 => mk (if q = 0 then .sbc else .adc) .hl .rr
    | 3 =>
      if p = 2 then
        let k := if q = 0 then make .ed .ld .nn_ind .hl else make .ed .ld .hl .nn_ind
        form { k with hasAlias := true, aliasSpace := .base }
      else if q = 0 then mk .ld .nn_ind .rr_ed else mk .ld .rr_ed .nn_ind
    | 4 =>
      let k := make .ed .neg .a .none
      form (if y = 0 then k else aliasKey k .ed)
    | 5 =>
      if y = 1 then mk .reti .none .none
      else
        let k := make .ed .retn .none .none
        form (if y = 0 then k else aliasKey k .ed)
    | 6 =>
      let mode : Operand := match y with
        | 0 => .im0 | 1 => .im0 | 2 => .im1 | 3 => .im2
        | 4 => .im0 | 5 => .im0 | 6 => .im1 | _ => .im2
      let k := make .ed .im mode .none
      form (if y = 0 ∨ y = 2 ∨ y = 3 then k else aliasKey k .ed)
    | _ =>
      match y with
      | 0 => mk .ld .i .a
      | 1 => mk .ld .r_refresh .a
      | 2 => mk .ld .a .i
      | 3 => mk .ld .a .r_refresh
      | 4 => mk .rrd .a .hl_ind
      | 5 => mk .rld .a .hl_ind
      | _ => nop
  else if 0xA0 ≤ b.toNat ∧ b.toNat < 0xC0 ∧ b.toNat &&& 4 = 0 then
    let block : Mnemonic := match y - 4, b.toNat &&& 3 with
      | 0, 0 => .ldi | 0, 1 => .cpi | 0, 2 => .ini | 0, _ => .outi
      | 1, 0 => .ldd | 1, 1 => .cpd | 1, 2 => .ind | 1, _ => .outd
      | 2, 0 => .ldir | 2, 1 => .cpir | 2, 2 => .inir | 2, _ => .otir
      | _, 0 => .lddr | _, 1 => .cpdr | _, 2 => .indr | _, _ => .otdr
    mk block .none .none
  else nop

def classifyIndex (space : Space) (b : BitVec 8) : Classified :=
  let iy : Bool := space == .fd
  let ixReg : Operand := if iy then .iy else .ix
  let ixd : Operand := if iy then .iy_d else .ix_d
  let half : Operand := if iy then .iy_half else .ix_half
  let rrIx : Operand := if iy then .rr_iy else .rr_ix
  let mk := fun (m : Mnemonic) (d s : Operand) (doc : Bool) => form (make space m d s doc)
  let ignored : Classified := ⟨.prefix_ignored, (classifyBase b).key⟩
  let y := fieldY b
  let z := fieldZ b
  let yHalf : Bool := y == 4 || y == 5
  let zHalf : Bool := z == 4 || z == 5
  match b.toNat with
  | 0x09 | 0x19 | 0x29 | 0x39 => mk .add ixReg rrIx true
  | 0x21 => mk .ld ixReg .nn true
  | 0x22 => mk .ld .nn_ind ixReg true
  | 0x23 => mk .inc ixReg .none true
  | 0x24 | 0x2C => mk .inc half .none false
  | 0x25 | 0x2D => mk .dec half .none false
  | 0x26 | 0x2E => mk .ld half .n false
  | 0x2A => mk .ld ixReg .nn_ind true
  | 0x2B => mk .dec ixReg .none true
  | 0x34 => mk .inc ixd .none true
  | 0x35 => mk .dec ixd .none true
  | 0x36 => mk .ld ixd .n true
  | 0xCB => ⟨if iy then .escape_fdcb else .escape_ddcb, {}⟩
  | 0xDD | 0xFD => ⟨.prefix_chain, {}⟩
  | 0xED => ⟨.prefix_ignored_before_ed, {}⟩
  | 0xE1 => mk .pop ixReg .none true
  | 0xE3 => mk .ex .sp_ind ixReg true
  | 0xE5 => mk .push .none ixReg true
  | 0xE9 => mk .jp .none ixReg true
  | 0xF9 => mk .ld .sp ixReg true
  | _ =>
    if fieldX b = 1 ∧ b.toNat ≠ 0x76 then
      if z = 6 then mk .ld .r ixd true
      else if y = 6 then mk .ld ixd .r true
      else if yHalf && zHalf then mk .ld half half false
      else if yHalf then mk .ld half .r false
      else if zHalf then mk .ld .r half false
      else ignored
    else if fieldX b = 2 then
      if z = 6 then mk (kAlu y) .a ixd true
      else if zHalf then mk (kAlu y) .a half false
      else ignored
    else ignored

def classifyIndexedCb (space : Space) (b : BitVec 8) : Classified :=
  let iy : Bool := space == .fdcb
  let ixd : Operand := if iy then .iy_d else .ix_d
  let copy : Operand := if iy then .iy_d_copy_r else .ix_d_copy_r
  let x := fieldX b
  let y := fieldY b
  let z := fieldZ b
  if x = 0 then
    let m := kShift y
    if z = 6 then form (make space m ixd .none (m != .sll))
    else form (make space m copy .none false)
  else if x = 1 then
    let k := make space .bit .bit ixd
    form (if z = 6 then k else aliasKey k space)
  else
    let m : Mnemonic := if x = 2 then .res else .set
    if z = 6 then form (make space m .bit ixd)
    else form (make space m .bit copy false)

def classifyKey (space : Space) (b : BitVec 8) : Classified :=
  match space with
  | .base => classifyBase b
  | .cb => classifyCb b
  | .ed => classifyEd b
  | .dd => classifyIndex .dd b
  | .fd => classifyIndex .fd b
  | .ddcb => classifyIndexedCb .ddcb b
  | .fdcb => classifyIndexedCb .fdcb b

def operandBytes : Operand → Nat
  | .n | .e | .n_port => 1
  | .nn | .nn_ind => 2
  | _ => 0

def immediateBytes (k : Key) : Nat := operandBytes k.dst + operandBytes k.src

def isIndexedD (o : Operand) : Bool :=
  o == .ix_d || o == .iy_d || o == .ix_d_copy_r || o == .iy_d_copy_r

def fixed (t : Nat) : Timing := ⟨.fixed, t, 0⟩
def cond (notTaken taken : Nat) : Timing := ⟨.conditional, notTaken, taken⟩

def isAlu (m : Mnemonic) : Bool :=
  m == .add || m == .adc || m == .sub || m == .sbc || m == .and_ || m == .xor_ || m == .or_ || m == .cp

def timingOfBase (m : Mnemonic) (d s : Operand) : Timing :=
  let alu := if isAlu m then fixed (if s == .hl_ind || s == .n then 7 else 4) else fixed 4
  match m with
  | .halt => ⟨.halt, 4, 4⟩
  | .djnz => cond 8 13
  | .jr => if d == .cc4 then cond 7 12 else fixed 12
  | .ret => if d == .cc then cond 5 11 else fixed 10
  | .call => if d == .cc then cond 10 17 else fixed 17
  | .jp => if s == .hl then fixed 4 else fixed 10
  | .push => fixed 11
  | .pop => fixed 10
  | .rst => fixed 11
  | .out | .in_ => fixed 11
  | .ex => if d == .sp_ind then fixed 19 else fixed 4
  | .add => if d == .hl then fixed 11 else alu
  | .inc | .dec => if d == .rr then fixed 6 else if d == .hl_ind then fixed 11 else fixed 4
  | .ld =>
    if d == .rr then fixed 10
    else if d == .sp then fixed 6
    else if d == .rr_ind || s == .rr_ind then fixed 7
    else if d == .nn_ind || s == .nn_ind then fixed (if d == .hl || s == .hl then 16 else 13)
    else if d == .hl_ind && s == .n then fixed 10
    else if d == .hl_ind || s == .hl_ind || s == .n then fixed 7
    else fixed 4
  | _ => alu

def timingOfEd (m : Mnemonic) (d s : Operand) : Timing :=
  match m with
  | .nop | .neg | .im => fixed 8
  | .in_ | .out => fixed 12
  | .sbc | .adc => fixed 15
  | .ld => if d == .nn_ind || s == .nn_ind then fixed 20 else fixed 9
  | .retn | .reti => fixed 14
  | .rrd | .rld => fixed 18
  | .ldir | .cpir | .inir | .otir | .lddr | .cpdr | .indr | .otdr => ⟨.repeat_, 16, 21⟩
  | _ => fixed 16

def timingOfIndex (m : Mnemonic) (d s : Operand) : Timing :=
  let ixd := isIndexedD d || isIndexedD s
  let half := d == .ix_half || d == .iy_half || s == .ix_half || s == .iy_half
  if isAlu m && d == .a then fixed (if ixd then 19 else 8)
  else match m with
    | .add => fixed 15
    | .ld =>
      if ixd then fixed 19
      else if half then fixed (if s == .n then 11 else 8)
      else if d == .nn_ind || s == .nn_ind then fixed 20
      else if d == .sp then fixed 10
      else fixed 14
    | .inc | .dec => fixed (if ixd then 23 else if half then 8 else 10)
    | .pop => fixed 14
    | .push => fixed 15
    | .ex => fixed 23
    | _ => fixed 8

def timingOf (k : Key) : Timing :=
  let m := k.mnemonic
  let d := k.dst
  let s := k.src
  match k.space with
  | .base => timingOfBase m d s
  | .cb =>
    if m == .bit then fixed (if s == .hl_ind then 12 else 8)
    else fixed (if d == .hl_ind || s == .hl_ind then 15 else 8)
  | .ed => timingOfEd m d s
  | .dd | .fd => timingOfIndex m d s
  | .ddcb | .fdcb => fixed (if m == .bit then 20 else 23)

/-- The descriptor of an interned key, before its alias target is resolved. -/
def describe (id : FormId) (k : Key) : FormDescriptor :=
  let indexedCb := k.space == .ddcb || k.space == .fdcb
  let prefixed := k.space != .base
  let opcodeIndex := if indexedCb then 3 else if prefixed then 1 else 0
  let base : FormDescriptor :=
    { id, space := k.space, mnemonic := k.mnemonic, dst := k.dst, src := k.src
      documented := k.documented, m1Fetches := if k.space == .base then 1 else 2
      opcodeIndex, timing := timingOf k }
  if indexedCb then { base with displacementIndex := 2, length := 4 }
  else
    let disp := isIndexedD k.dst || isIndexedD k.src
    let next := if disp then opcodeIndex + 2 else opcodeIndex + 1
    let imm := immediateBytes k
    { base with
      displacementIndex := if disp then opcodeIndex + 1 else kNoIndex
      immediateIndex := if imm != 0 then next else kNoIndex
      immediateSize := imm
      length := next + imm }

structure Tables where
  forms : List FormDescriptor
  bytes : Space → BitVec 8 → ByteClass

/-- `intern` returns the position of `key`, appending it when it is new. -/
def intern (keys : List Key) (key : Key) : List Key × FormId :=
  match keys.idxOf? key with
  | some i => (keys, i)
  | none => (keys ++ [key], keys.length)

structure BuildState where
  keys : List Key
  bytes : Space → BitVec 8 → ByteClass

def buildCell (st : BuildState) (cell : Space × BitVec 8) : BuildState :=
  let c := classifyKey cell.1 cell.2
  let put := fun (bc : ByteClass) => fun s b => if (s, b) = cell then bc else st.bytes s b
  if c.kind = .form ∨ c.kind = .prefix_ignored then
    let (keys, id) := intern st.keys c.key
    ⟨keys, put ⟨c.kind, id⟩⟩
  else ⟨st.keys, put ⟨c.kind, kNoForm⟩⟩

def allSpaces : List Space := [.base, .cb, .ed, .dd, .fd, .ddcb, .fdcb]

def allCells : List (Space × BitVec 8) :=
  allSpaces.flatMap fun s => (List.range 256).map fun b => (s, BitVec.ofNat 8 b)

def buildCells : BuildState := allCells.foldl buildCell ⟨[], fun _ _ => {}⟩

/-- The documented form an alias encoding stands for. -/
def aliasTarget (keys : List Key) (k : Key) : FormId :=
  if k.hasAlias then
    (keys.findIdx? fun j => j.space == k.aliasSpace && j.mnemonic == k.mnemonic && j.dst == k.dst &&
      j.src == k.src && j.documented && !j.hasAlias).getD kNoForm
  else kNoForm

def build : Tables :=
  let st := buildCells
  { forms := st.keys.zipIdx.map fun (k, i) => { describe i k with aliasOf := aliasTarget st.keys k }
    bytes := st.bytes }

def tables : Tables := build

def formDescriptor (id : FormId) : FormDescriptor := tables.forms.getD id {}

def classifyOpcodeByte (space : Space) (byte : BitVec 8) : ByteClass := tables.bytes space byte

end Segarecomp.Z80
