import Segarecomp.Lib.Search
import Segarecomp.M68k.StaticWalk

/-! The return edges of the static program: for each call frame, the RTS instructions the body of its callee
reaches. -/

namespace Segarecomp.M68k.StaticDiscovery

open DirectFlow (Address)
open Lib

/-- The decoded instructions and the accepted targets of computed jumps, by address. -/
structure ReturnTrace where
  decodedByAddress : Address → Option M68kDecodedInstruction
  acceptedTier1BySource : Address → Option M68kIndirectTargetEaSet

/-- A call contributes its continuation only: its callee is a body of its own. -/
def returnReachabilitySuccessors (trace : ReturnTrace) (addr : Address) (decoded : M68kDecodedInstruction) :
    List Address :=
  let nextPc := addr + BitVec.ofNat 32 decoded.provenance.length
  match decoded.kind with
  | .bneShort => [nextPc, m68kBranchTarget addr (decoded.operand.signExtend 32)]
  | .braShort => [m68kBranchTarget addr (decoded.operand.signExtend 32)]
  | .branch =>
    m68kBranchTarget addr (signedDisplacement decoded) :: if decoded.condition ≠ .always then [nextPc] else []
  | .dbcc => [m68kBranchTarget addr ((decoded.sourceEa.immediateValue.setWidth 16).signExtend 32), nextPc]
  | .rts | .rte | .rtr | .instructionException => []
  | .jmp =>
    if m68kIsStaticallyFoldableControlEa decoded.sourceEa then [m68kCanonicalEaAddress decoded.sourceEa]
    else
      match trace.acceptedTier1BySource addr with
      | some tier1 => tier1.candidates
      | none => []
  | .jsr | .bsr => [nextPc]
  | _ => [nextPc]

/-- What the trace pushes at an address: an RTS ends it, and so does an address that is not decoded. -/
def returnNext (trace : ReturnTrace) (pc : Address) : List Address :=
  match trace.decodedByAddress pc with
  | none => []
  | some decoded => if decoded.kind = .rts then [] else returnReachabilitySuccessors trace pc decoded

/-- An RTS is inserted into the set of the callee, kept in ascending order. -/
def noteRts (trace : ReturnTrace) (pc : Address) (found : List Address) : List Address :=
  match trace.decodedByAddress pc with
  | none => found
  | some decoded =>
    if decoded.kind = .rts then
      if found.contains pc then found else found.orderedInsert (fun a b => a.toNat ≤ b.toNat) pc
    else found

def reachableRtsOfCallee (trace : ReturnTrace) (callee : Address) : List Address :=
  (Search.run (returnNext trace) (noteRts trace) ∅ [callee] []).2

/-- The identity of an emitted edge: the RTS, and the caller, callee and continuation of the call. -/
abbrev ReturnKey := Address × Address × Address × Address

def returnKey (rts : Address) (frame : M68kStaticFrame) : ReturnKey :=
  (rts, frame.call.caller.address, frame.call.callee, frame.call.continuation)

/-- The edges and the keys emitted so far. -/
structure ReturnEdges where
  edges : List M68kStaticEdge := []
  emitted : List ReturnKey := []

/-- The body of the inner loop. `none` is the exception of `decoded_by_address.at`. -/
def emitReturn (trace : ReturnTrace) (frame : M68kStaticFrame) (rts : Address) (out : ReturnEdges) :
    Option ReturnEdges :=
  if returnKey rts frame ∈ out.emitted then some out
  else
    (trace.decodedByAddress rts).map fun decoded =>
      { edges := out.edges ++ [m68kMakeStaticReturnEdge frame.call decoded]
        emitted := returnKey rts frame :: out.emitted }

def emitFrame (trace : ReturnTrace) (out : ReturnEdges) (frame : M68kStaticFrame) : Option ReturnEdges :=
  (reachableRtsOfCallee trace frame.call.callee).foldlM (fun out rts => emitReturn trace frame rts out) out

def m68kReachableReturnEdges (trace : ReturnTrace) (frames : List M68kStaticFrame) : Option (List M68kStaticEdge) :=
  (frames.foldlM (emitFrame trace) {}).map ReturnEdges.edges

/-! ## The RTS of a callee -/

/-- An RTS instruction is decoded at the address. -/
def IsRts (trace : ReturnTrace) (pc : Address) : Prop :=
  ∃ decoded, trace.decodedByAddress pc = some decoded ∧ decoded.kind = .rts

/-- Reachable inside the body that starts at `callee`. -/
def ReturnReaches (trace : ReturnTrace) : Address → Address → Prop := Search.Reaches (returnNext trace)

variable {trace : ReturnTrace}

theorem mem_noteRts {pc a : Address} {found : List Address} :
    a ∈ noteRts trace pc found ↔ a ∈ found ∨ a = pc ∧ IsRts trace pc := by
  unfold noteRts IsRts
  cases present : trace.decodedByAddress pc with
  | none => simp
  | some decoded =>
      by_cases rts : decoded.kind = .rts
      · by_cases known : pc ∈ found
        · simp only [rts, if_true, List.contains_iff_mem.mpr known]
          constructor
          · exact .inl
          · rintro (member | ⟨rfl, _⟩)
            · exact member
            · exact known
        · simp [rts, known, or_comm]
      · simp [rts]

theorem mem_foldl_noteRts {order found : List Address} {a : Address} :
    a ∈ order.foldl (fun found pc => noteRts trace pc found) found ↔ a ∈ found ∨ a ∈ order ∧ IsRts trace a := by
  induction order generalizing found with
  | nil => simp
  | cons pc rest ih =>
      rw [List.foldl_cons, ih, mem_noteRts, List.mem_cons]
      constructor
      · rintro ((member | ⟨rfl, rts⟩) | ⟨member, rts⟩)
        · exact .inl member
        · exact .inr ⟨.inl rfl, rts⟩
        · exact .inr ⟨.inr member, rts⟩
      · rintro (member | ⟨rfl | member, rts⟩)
        · exact .inl (.inl member)
        · exact .inl (.inr ⟨rfl, rts⟩)
        · exact .inr ⟨member, rts⟩

/-- The trace of a callee finds the RTS instructions its body reaches. -/
theorem mem_reachableRts {callee rts : Address} :
    rts ∈ reachableRtsOfCallee trace callee ↔ ReturnReaches trace callee rts ∧ IsRts trace rts := by
  obtain ⟨order, _, collected, members⟩ :=
    Search.run_order (returnNext trace) (noteRts trace) ∅ [callee] []
  rw [reachableRtsOfCallee, collected, mem_foldl_noteRts, members, Search.run_visits]
  simp [ReturnReaches]

/-! ## The edges -/

/-- An RTS with a call frame. -/
abbrev ReturnPair := Address × M68kStaticFrame

def pairKey (pair : ReturnPair) : ReturnKey := returnKey pair.1 pair.2

/-- The edge of a pair: from the RTS decoded there to the continuation of the call. -/
def IsReturnEdge (trace : ReturnTrace) (pair : ReturnPair) (edge : M68kStaticEdge) : Prop :=
  ∃ decoded, trace.decodedByAddress pair.1 = some decoded ∧ decoded.kind = .rts ∧
    edge = m68kMakeStaticReturnEdge pair.2.call decoded

/-- What is emitted once the pairs of `seen` have been gone through. -/
structure Emitted (trace : ReturnTrace) (seen pairs : List ReturnPair) (out : ReturnEdges) : Prop where
  edges : List.Forall₂ (IsReturnEdge trace) pairs out.edges
  keys : ∀ key, key ∈ out.emitted ↔ key ∈ pairs.map pairKey
  once : (pairs.map pairKey).Nodup
  sound : ∀ pair ∈ pairs, pair ∈ seen
  complete : ∀ pair ∈ seen, pairKey pair ∈ pairs.map pairKey

variable {seen pairs : List ReturnPair} {out : ReturnEdges}

theorem Emitted.step {rts : Address} (frame : M68kStaticFrame) (emitted : Emitted trace seen pairs out) (terminal : IsRts trace rts) :
    ∃ pairs' out', emitReturn trace frame rts out = some out' ∧ Emitted trace (seen ++ [(rts, frame)]) pairs' out' := by
  obtain ⟨edges, keys, once, sound, complete⟩ := emitted
  by_cases known : returnKey rts frame ∈ out.emitted
  · refine ⟨pairs, out, if_pos known, edges, keys, once, ?_, ?_⟩
    · exact fun pair member => List.mem_append_left _ (sound pair member)
    · intro pair member
      rcases List.mem_append.mp member with old | new
      · exact complete pair old
      · rw [List.mem_singleton.mp new]
        exact (keys _).mp known
  · obtain ⟨decoded, present, kind⟩ := terminal
    let out' : ReturnEdges :=
      { edges := out.edges ++ [m68kMakeStaticReturnEdge frame.call decoded]
        emitted := returnKey rts frame :: out.emitted }
    refine ⟨pairs ++ [(rts, frame)], out', ?_, ?_⟩
    · rw [emitReturn, if_neg known, present]
      rfl
    · constructor
      case edges => exact List.rel_append edges (.cons ⟨decoded, present, kind, rfl⟩ .nil)
      case keys =>
        intro key
        rw [List.mem_cons, keys, List.map_append, List.mem_append, List.map_singleton, List.mem_singleton, or_comm]
        rfl
      case once =>
        rw [List.map_append, List.map_singleton]
        refine List.nodup_append.mpr ⟨once, List.nodup_singleton _, ?_⟩
        intro key old key' new same
        apply known
        rw [keys]
        have last : key' = returnKey rts frame := List.mem_singleton.mp new
        exact last ▸ same ▸ old
      case sound =>
        intro pair member
        rcases List.mem_append.mp member with old | new
        · exact List.mem_append_left _ (sound pair old)
        · exact List.mem_append_right _ new
      case complete =>
        intro pair member
        rw [List.map_append]
        rcases List.mem_append.mp member with old | new
        · exact List.mem_append_left _ (complete pair old)
        · exact List.mem_append_right _ (List.mem_map_of_mem new)

theorem Emitted.callee {list : List Address} (frame : M68kStaticFrame) (emitted : Emitted trace seen pairs out)
    (terminal : ∀ rts ∈ list, IsRts trace rts) :
    ∃ pairs' out', list.foldlM (fun out rts => emitReturn trace frame rts out) out = some out' ∧
      Emitted trace (seen ++ list.map fun rts => (rts, frame)) pairs' out' := by
  induction list generalizing seen pairs out with
  | nil => exact ⟨pairs, out, rfl, by simpa using emitted⟩
  | cons rts rest ih =>
      obtain ⟨pairs', out', step, next⟩ := emitted.step frame (terminal rts (List.mem_cons_self ..))
      obtain ⟨pairs'', out'', loop, final⟩ := ih next fun rts member => terminal rts (List.mem_cons_of_mem _ member)
      refine ⟨pairs'', out'', ?_, ?_⟩
      · rw [List.foldlM_cons, step]
        exact loop
      · rw [List.map_cons, List.append_cons]
        exact final

/-- The pairs the two loops go through. -/
def framePairs (trace : ReturnTrace) (frame : M68kStaticFrame) : List ReturnPair :=
  (reachableRtsOfCallee trace frame.call.callee).map fun rts => (rts, frame)

theorem Emitted.frames (frames : List M68kStaticFrame) (emitted : Emitted trace seen pairs out) :
    ∃ pairs' out', frames.foldlM (emitFrame trace) out = some out' ∧
      Emitted trace (seen ++ frames.flatMap (framePairs trace)) pairs' out' := by
  induction frames generalizing seen pairs out with
  | nil => exact ⟨pairs, out, rfl, by simpa using emitted⟩
  | cons frame rest ih =>
      obtain ⟨pairs', out', step, next⟩ :=
        emitted.callee frame fun rts member => (mem_reachableRts.mp member).2
      obtain ⟨pairs'', out'', loop, final⟩ := ih next
      refine ⟨pairs'', out'', ?_, ?_⟩
      · rw [List.foldlM_cons, emitFrame, step]
        exact loop
      · rw [List.flatMap_cons, ← List.append_assoc]
        exact final

/-- The function returns, and what it returns are the edges of the pairs of an RTS and a frame whose callee
reaches it, each identity once. -/
theorem return_edges_exact (trace : ReturnTrace) (frames : List M68kStaticFrame) :
    ∃ pairs edges, m68kReachableReturnEdges trace frames = some edges ∧
      List.Forall₂ (IsReturnEdge trace) pairs edges ∧
      (pairs.map pairKey).Nodup ∧
      (∀ pair ∈ pairs, pair.2 ∈ frames ∧ ReturnReaches trace pair.2.call.callee pair.1) ∧
      ∀ frame ∈ frames, ∀ rts, IsRts trace rts → ReturnReaches trace frame.call.callee rts →
        returnKey rts frame ∈ pairs.map pairKey := by
  have start : Emitted trace [] [] {} :=
    ⟨.nil, fun key => by simp, List.nodup_nil, fun pair member => member, fun pair member => absurd member List.not_mem_nil⟩
  obtain ⟨pairs, out, loop, emitted⟩ := start.frames frames
  rw [List.nil_append] at emitted
  refine ⟨pairs, out.edges, ?_, emitted.edges, emitted.once, ?_, ?_⟩
  · rw [m68kReachableReturnEdges, loop]
    rfl
  · intro pair member
    obtain ⟨frame, called, listed⟩ := List.mem_flatMap.mp (emitted.sound pair member)
    obtain ⟨rts, reached, rfl⟩ := List.mem_map.mp listed
    exact ⟨called, (mem_reachableRts.mp reached).1⟩
  · intro frame called rts terminal reached
    apply emitted.complete (rts, frame)
    apply List.mem_flatMap.mpr
    exact ⟨frame, called, List.mem_map_of_mem (mem_reachableRts.mpr ⟨reached, terminal⟩)⟩

end Segarecomp.M68k.StaticDiscovery
