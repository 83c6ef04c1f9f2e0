import WeatherStation.Foundation.Loop
import WeatherStation.Foundation.Memory
import WeatherStation.Foundation.Ring

/-!
# The node list of the sound driver

The audio framework hands its buffers to the sound driver with {lit}`rt_data_node_write`; the
interrupt of the transmission takes their bytes with {lit}`rt_data_node_read`, which goes on to
the next buffer where one ends and calls {lit}`read_complete` for each.  Both work on a ring of
nodes and an offset into the oldest one.

Main results:

- Theorem {lit}`inv_readNode`: what one round of the read loop preserves.
- Theorem {lit}`left_readRounds`: the read loop is left after as many rounds as there are nodes.
- Theorem {lit}`inv_run`: what every sequence of calls preserves.
- Theorem {lit}`node_list_faithful`: the list is a queue of bytes.
-/

open Foundation

namespace WeatherStation

namespace Sound

/-! ## Nodes and lists -/

/-- {lit}`rt_data_node` -/
structure DataNode where
  data_ptr : Nat
  data_size : Nat
deriving DecidableEq

/-- The bytes of the buffer of a node, which its owner leaves alone until
{lit}`read_complete`. -/
def DataNode.bytes (mem : Memory) (n : DataNode) : List UInt8 :=
  mem.read n.data_ptr n.data_size

/-- {lit}`rt_data_node_list` with {lit}`size` nodes.  The indices are never out of bounds. -/
structure DataNodeList (size : Nat) where
  node : Fin size → DataNode
  read_index : Fin size
  write_index : Fin size
  data_offset : Nat

variable {size : Nat}

/-- {lit}`rt_data_node_init`; the nodes hold what memory held. -/
def rtDataNodeInit (h : 0 < size) (node : Fin size → DataNode) : DataNodeList size where
  node := node
  read_index := ⟨0, h⟩
  write_index := ⟨0, h⟩
  data_offset := 0

/-- {lit}`rt_data_node_write`: the list and the result, which is none for
{lit}`-RT_ERROR`. -/
def rtDataNodeWrite (list : DataNodeList size) (buffer : DataNode) :
    DataNodeList size × Option Nat :=
  let next_index := Ring.next list.write_index
  if next_index = list.read_index then (list, none)
  else
    ({ list with
        node := Function.update list.node list.write_index buffer
        write_index := next_index }, some buffer.data_size)

/-! ## Reading -/

/-- An event of a read: a byte that is copied, or a call of {lit}`read_complete`. -/
inductive Event where
  | copied (b : UInt8)
  | read_complete (node : DataNode)
deriving DecidableEq

/-- The variables of {lit}`rt_data_node_read`, whether there is another round, and the events
so far. -/
structure ReadState (size : Nat) where
  list : DataNodeList size
  buffer : Memory
  read_offset : Nat
  result : Nat
  running : Bool
  events : List Event

/-- {lit}`copy_size`: the rest of the node or the rest of the buffer.  The sizes are unsigned,
and so is the comparison with {lit}`remain_len`. -/
def copySize (n read_offset remain_len : Nat) : Nat :=
  if n - read_offset > remain_len then remain_len else n - read_offset

/-- One round of the loop of {lit}`rt_data_node_read` for {lit}`n` bytes. -/
def readNode (mem : Memory) (n : Nat) (s : ReadState size) : Option (ReadState size) :=
  if s.running then
    let node := s.list.node s.list.read_index
    let copy_size := copySize n s.read_offset (node.data_size - s.list.data_offset)
    let copied := mem.read (node.data_ptr + s.list.data_offset) copy_size
    let buffer := s.buffer.write s.read_offset copied
    let read_offset := s.read_offset + copy_size
    let data_offset := s.list.data_offset + copy_size
    if data_offset ≥ node.data_size then
      let next_index := Ring.next s.list.read_index
      some
        { list := { s.list with read_index := next_index, data_offset := 0 }
          buffer := buffer
          read_offset := read_offset
          result := if next_index = s.list.write_index then read_offset else s.result
          running := next_index ≠ s.list.write_index ∧ read_offset < n
          events := s.events ++ copied.map .copied ++ [.read_complete node] }
    else
      some
        { s with
          list := { s.list with data_offset := data_offset }
          buffer := buffer
          read_offset := read_offset
          running := read_offset < n
          events := s.events ++ copied.map .copied }
  else none

/-- {lit}`rt_data_node_read` when it is entered: a list without buffers is not read. -/
def ReadState.start (list : DataNodeList size) (buffer : Memory) (n : Nat) : ReadState size where
  list := list
  buffer := buffer
  read_offset := 0
  result := if list.read_index = list.write_index then 0 else n
  running := list.read_index ≠ list.write_index
  events := []

/-- {lit}`rt_data_node_read` for {lit}`n` bytes.  The rounds go over each node once at
most. -/
def rtDataNodeRead (mem : Memory) (list : DataNodeList size) (buffer : Memory) (n : Nat) :
    ReadState size :=
  Loop.rounds (readNode mem n) size (.start list buffer n)

/-! ## Sequences of calls -/

/-- A call on the list. -/
inductive Call where
  | rt_data_node_write (buffer : DataNode)
  | rt_data_node_read (buffer : Memory) (n : Nat)

/-- The call does not write an empty buffer. -/
def Call.NonEmpty : Call → Prop
  | rt_data_node_write buffer => 0 < buffer.data_size
  | rt_data_node_read _ _ => True

/-- The list after some calls, the buffers that were accepted, the bytes that the reads
delivered, and the events. -/
structure Log (size : Nat) where
  list : DataNodeList size
  accepted : List DataNode
  delivered : List UInt8
  events : List Event

/-- One call. -/
def Log.call (mem : Memory) (s : Log size) : Call → Log size
  | .rt_data_node_write buffer =>
      match rtDataNodeWrite s.list buffer with
      | (list, some _) => { s with list := list, accepted := s.accepted ++ [buffer] }
      | (list, none) => { s with list := list }
  | .rt_data_node_read buffer n =>
      let r := rtDataNodeRead mem s.list buffer n
      { s with
        list := r.list
        delivered := s.delivered ++ r.buffer.read 0 r.result
        events := s.events ++ r.events }

/-- Calls one after another on a new list. -/
def run (mem : Memory) (h : 0 < size) (node : Fin size → DataNode) (calls : List Call) :
    Log size :=
  calls.foldl (Log.call mem) ⟨rtDataNodeInit h node, [], [], []⟩

/-! ## Events -/

/-- The bytes that were copied. -/
def copiedBytes (events : List Event) : List UInt8 :=
  events.filterMap fun
    | .copied b => some b
    | .read_complete _ => none

/-- The nodes that {lit}`read_complete` was called for. -/
def completed (events : List Event) : List DataNode :=
  events.filterMap fun
    | .copied _ => none
    | .read_complete node => some node

/-- When {lit}`read_complete` is called for a node, the bytes of its buffer are the last ones
that were copied, behind those of the nodes before. -/
def Prompt (mem : Memory) (events : List Event) : Prop :=
  ∀ front node, front ++ [.read_complete node] <+: events →
    copiedBytes front = (completed front ++ [node]).flatMap (DataNode.bytes mem)

section Events

variable (mem : Memory) (events : List Event)

@[simp] theorem copiedBytes_append (events' : List Event) :
    copiedBytes (events ++ events') = copiedBytes events ++ copiedBytes events' :=
  List.filterMap_append

@[simp] theorem completed_append (events' : List Event) :
    completed (events ++ events') = completed events ++ completed events' :=
  List.filterMap_append

@[simp] theorem copiedBytes_map (bs : List UInt8) : copiedBytes (bs.map .copied) = bs := by
  simp [copiedBytes, List.filterMap_map]

@[simp] theorem completed_map (bs : List UInt8) : completed (bs.map .copied) = [] := by
  simp [completed, List.filterMap_map]

@[simp] theorem copiedBytes_complete (node : DataNode) :
    copiedBytes [.read_complete node] = [] :=
  rfl

@[simp] theorem completed_complete (node : DataNode) :
    completed [.read_complete node] = [node] :=
  rfl

variable {mem events}

theorem prompt_nil : Prompt mem [] := by
  intro front node h
  simp at h

theorem Prompt.copied (h : Prompt mem events) (bs : List UInt8) :
    Prompt mem (events ++ bs.map .copied) := by
  induction bs generalizing events with
  | nil => simpa using h
  | cons b bs ih =>
      rw [List.map_cons, List.append_cons]
      refine ih fun front node hfront => ?_
      rcases List.prefix_concat_iff.mp hfront with heq | hfront
      · simp at heq
      · exact h front node hfront

theorem Prompt.complete (h : Prompt mem events) {node : DataNode}
    (hcopied : copiedBytes events = (completed events ++ [node]).flatMap (DataNode.bytes mem)) :
    Prompt mem (events ++ [.read_complete node]) := by
  intro front node' hfront
  rcases List.prefix_concat_iff.mp hfront with heq | hfront
  · rcases List.append_inj' heq rfl with ⟨rfl, hlast⟩
    obtain rfl : node' = node := by simpa using hlast
    exact hcopied
  · exact h front node' hfront

end Events

/-! ## The representation of the queue -/

/-- The buffers that were accepted and are not completed. -/
def DataNodeList.waiting (list : DataNodeList size) : List DataNode :=
  Ring.contents list.node list.read_index list.write_index

/-- The bytes of the oldest buffer that were already copied. -/
def DataNodeList.started (mem : Memory) (list : DataNodeList size) : List UInt8 :=
  mem.read (list.node list.read_index).data_ptr list.data_offset

/-- The ring and the offset represent the queue of the bytes that were accepted and not
delivered. -/
structure Log.Inv (mem : Memory) (s : Log size) : Prop where
  nonEmpty : ∀ node ∈ s.accepted, 0 < node.data_size
  offset_lt : s.list.read_index ≠ s.list.write_index →
    s.list.data_offset < (s.list.node s.list.read_index).data_size
  offset_eq : s.list.read_index = s.list.write_index → s.list.data_offset = 0
  accepted : completed s.events ++ s.list.waiting = s.accepted
  copied : copiedBytes s.events =
    (completed s.events).flatMap (DataNode.bytes mem) ++ s.list.started mem
  delivered : s.delivered = copiedBytes s.events
  prompt : Prompt mem s.events

section Inv

variable {mem : Memory}

theorem inv_init (h : 0 < size) (node : Fin size → DataNode) :
    Log.Inv mem ⟨rtDataNodeInit h node, [], [], []⟩ where
  nonEmpty := List.forall_mem_nil _
  offset_lt hne := absurd rfl hne
  offset_eq _ := rfl
  accepted := by simp [DataNodeList.waiting, rtDataNodeInit, completed]
  copied := by simp [DataNodeList.started, rtDataNodeInit, completed, copiedBytes, Memory.read]
  delivered := rfl
  prompt := prompt_nil

/-- An accepted buffer joins the queue; a full list is not changed. -/
theorem rtDataNodeWrite_cases (list : DataNodeList size) (buffer : DataNode) :
    (Ring.next list.write_index = list.read_index ∧
      rtDataNodeWrite list buffer = (list, none)) ∨
      Ring.next list.write_index ≠ list.read_index ∧
        rtDataNodeWrite list buffer = ({ list with
          node := Function.update list.node list.write_index buffer
          write_index := Ring.next list.write_index }, some buffer.data_size) := by
  by_cases hfull : Ring.next list.write_index = list.read_index
  · exact .inl ⟨hfull, if_pos hfull⟩
  · exact .inr ⟨hfull, if_neg hfull⟩

theorem inv_write {s : Log size} (hs : s.Inv mem) {buffer : DataNode}
    (hbuffer : 0 < buffer.data_size) : (s.call mem (.rt_data_node_write buffer)).Inv mem := by
  rcases rtDataNodeWrite_cases s.list buffer with ⟨-, heq⟩ | ⟨hfree, heq⟩
  · simp only [Log.call, heq]
    exact hs
  simp only [Log.call, heq]
  -- The oldest buffer stays where it is, unless the list was empty.
  have hold (h : s.list.read_index ≠ s.list.write_index) :
      Function.update s.list.node s.list.write_index buffer s.list.read_index =
        s.list.node s.list.read_index :=
    Function.update_of_ne h _ _
  constructor
  case nonEmpty =>
      exact List.forall_mem_append.mpr ⟨hs.nonEmpty, List.forall_mem_singleton.mpr hbuffer⟩
  case offset_lt =>
      intro _
      by_cases hempty : s.list.read_index = s.list.write_index
      · simpa [hempty, hs.offset_eq hempty] using hbuffer
      · simp only [hold hempty]
        exact hs.offset_lt hempty
  case offset_eq => exact fun heq' => absurd heq'.symm hfree
  case accepted =>
      show completed s.events ++
        Ring.contents (Function.update s.list.node s.list.write_index buffer)
          s.list.read_index (Ring.next s.list.write_index) = _
      rw [Ring.contents_update_next s.list.node hfree buffer, ← List.append_assoc]
      exact congrArg (· ++ [buffer]) hs.accepted
  case copied =>
      rw [hs.copied]
      congr 1
      by_cases hempty : s.list.read_index = s.list.write_index
      · simp [DataNodeList.started, hs.offset_eq hempty, Memory.read]
      · simp only [DataNodeList.started, hold hempty]
  case delivered => exact hs.delivered
  case prompt => exact hs.prompt

/-- The bytes of a buffer in two parts. -/
theorem bytes_eq_append (mem : Memory) {node : DataNode} {off copy_size : Nat}
    (h : off + copy_size = node.data_size) :
    node.bytes mem = mem.read node.data_ptr off ++ mem.read (node.data_ptr + off) copy_size := by
  rw [DataNode.bytes, ← h, Memory.read_add]

section Copy

variable {s : Log size} {copy_size : Nat}

/-- A part of the oldest buffer is copied. -/
theorem inv_copy (hs : s.Inv mem) (hne : s.list.read_index ≠ s.list.write_index)
    (hpart : s.list.data_offset + copy_size < (s.list.node s.list.read_index).data_size)
    {copied : List UInt8} (hcopied : copied =
      mem.read ((s.list.node s.list.read_index).data_ptr + s.list.data_offset) copy_size) :
    Log.Inv mem
      ⟨{ s.list with data_offset := s.list.data_offset + copy_size }, s.accepted,
        s.delivered ++ copied, s.events ++ copied.map .copied⟩ where
  nonEmpty := hs.nonEmpty
  offset_lt _ := hpart
  offset_eq heq := absurd heq hne
  accepted := by
    rw [completed_append, completed_map, List.append_nil]
    exact hs.accepted
  copied := by
    rw [copiedBytes_append, copiedBytes_map, completed_append, completed_map, List.append_nil,
      hs.copied, List.append_assoc, hcopied]
    simp only [DataNodeList.started, Memory.read_add]
  delivered := by rw [copiedBytes_append, copiedBytes_map, hs.delivered]
  prompt := hs.prompt.copied copied

/-- The rest of the oldest buffer is copied, and {lit}`read_complete` is called. -/
theorem inv_complete (hs : s.Inv mem) (hne : s.list.read_index ≠ s.list.write_index)
    (hrest : s.list.data_offset + copy_size = (s.list.node s.list.read_index).data_size)
    {copied : List UInt8} (hcopied : copied =
      mem.read ((s.list.node s.list.read_index).data_ptr + s.list.data_offset) copy_size) :
    Log.Inv mem
      ⟨{ s.list with read_index := Ring.next s.list.read_index, data_offset := 0 }, s.accepted,
        s.delivered ++ copied, s.events ++ copied.map .copied ++
          [.read_complete (s.list.node s.list.read_index)]⟩ := by
  have hwaiting : s.list.waiting = s.list.node s.list.read_index ::
      Ring.contents s.list.node (Ring.next s.list.read_index) s.list.write_index :=
    Ring.contents_of_ne s.list.node hne
  have hbytes : copiedBytes s.events ++ copied =
      (completed s.events ++ [s.list.node s.list.read_index]).flatMap (DataNode.bytes mem) := by
    rw [hs.copied, List.append_assoc, List.flatMap_append, List.flatMap_singleton,
      bytes_eq_append mem hrest, hcopied]
    rfl
  constructor
  case nonEmpty => exact hs.nonEmpty
  case offset_lt =>
      intro hnext
      have hmem : s.list.node (Ring.next s.list.read_index) ∈ s.accepted := by
        rw [← hs.accepted, hwaiting, Ring.contents_of_ne s.list.node hnext]
        simp
      exact hs.nonEmpty _ hmem
  case offset_eq => exact fun _ => rfl
  case accepted =>
      rw [← hs.accepted, hwaiting]
      simp [DataNodeList.waiting]
  case copied =>
      rw [copiedBytes_append, copiedBytes_append, copiedBytes_map, copiedBytes_complete,
        List.append_nil, hbytes]
      simp [DataNodeList.started, Memory.read]
  case delivered => simp [hs.delivered]
  case prompt =>
      refine (hs.prompt.copied copied).complete ?_
      rw [copiedBytes_append, copiedBytes_map, completed_append, completed_map, List.append_nil]
      exact hbytes

end Copy

end Inv

/-! ## The read loop -/

/-- What holds in the loop of {lit}`rt_data_node_read`, which was entered with the given
log. -/
structure ReadState.Inv (mem : Memory) (log : Log size) (n : Nat) (s : ReadState size) : Prop where
  log : Log.Inv mem ⟨s.list, log.accepted, log.delivered ++ copiedBytes s.events,
    log.events ++ s.events⟩
  buffer : s.buffer.read 0 s.read_offset = copiedBytes s.events
  le : s.read_offset ≤ n
  going : s.running = true → s.list.read_index ≠ s.list.write_index ∧ s.result = n
  left : s.running = false → s.result = s.read_offset ∧
    (s.read_offset = n ∨ s.list.read_index = s.list.write_index)

section ReadState

variable {mem : Memory} {log : Log size} {n : Nat} {s s' : ReadState size}

theorem inv_start (hlog : log.Inv mem) (buffer : Memory) :
    (ReadState.start log.list buffer n).Inv mem log n where
  log := by simpa [ReadState.start, copiedBytes] using hlog
  buffer := rfl
  le := Nat.zero_le n
  going hrun := by
    have hne : log.list.read_index ≠ log.list.write_index := by simpa [ReadState.start] using hrun
    exact ⟨hne, if_neg hne⟩
  left hrun := by
    have heq : log.list.read_index = log.list.write_index := by
      simpa [ReadState.start] using hrun
    exact ⟨if_pos heq, .inr heq⟩

/-- A round copies the rest of the node, or as many bytes as the buffer still takes. -/
theorem copySize_spec {read_offset remain_len : Nat} (hle : read_offset ≤ n) :
    copySize n read_offset remain_len ≤ remain_len ∧
      read_offset + copySize n read_offset remain_len ≤ n ∧
      (copySize n read_offset remain_len < remain_len →
        read_offset + copySize n read_offset remain_len = n) := by
  unfold copySize
  split_ifs <;> omega

/-- What one round of the loop does: it copies the rest of the oldest node and moves on to the
next one, or it copies a part of the node and is the last round. -/
theorem readNode_cases (h : readNode mem n s = some s') (hs : s.Inv mem log n) :
    s.running = true ∧ ∃ node copy_size copied,
      node = s.list.node s.list.read_index ∧
      copied = mem.read (node.data_ptr + s.list.data_offset) copy_size ∧
      s.read_offset + copy_size ≤ n ∧
      (s.list.data_offset + copy_size = node.data_size ∧
        s' = ⟨{ s.list with read_index := Ring.next s.list.read_index, data_offset := 0 },
          s.buffer.write s.read_offset copied, s.read_offset + copy_size,
          if Ring.next s.list.read_index = s.list.write_index then s.read_offset + copy_size
            else s.result,
          Ring.next s.list.read_index ≠ s.list.write_index ∧ s.read_offset + copy_size < n,
          s.events ++ copied.map .copied ++ [.read_complete node]⟩ ∨
      s.list.data_offset + copy_size < node.data_size ∧ s.read_offset + copy_size = n ∧
        s' = ⟨{ s.list with data_offset := s.list.data_offset + copy_size },
          s.buffer.write s.read_offset copied, s.read_offset + copy_size, s.result, false,
          s.events ++ copied.map .copied⟩) := by
  cases hrun : s.running with
  | false => simp [readNode, hrun] at h
  | true =>
      have hlt : s.list.data_offset < (s.list.node s.list.read_index).data_size :=
        hs.log.offset_lt (hs.going hrun).1
      have hspec := @copySize_spec n _
        ((s.list.node s.list.read_index).data_size - s.list.data_offset) hs.le
      simp only [readNode, hrun, if_true] at h
      generalize copySize n s.read_offset
        ((s.list.node s.list.read_index).data_size - s.list.data_offset) = copy_size at hspec h
      rcases hspec with ⟨hrest, hn, hpart⟩
      refine ⟨rfl, _, _, _, rfl, rfl, hn, ?_⟩
      by_cases hend : s.list.data_offset + copy_size ≥ (s.list.node s.list.read_index).data_size
      · rw [if_pos hend] at h
        exact .inl ⟨by omega, (Option.some.inj h).symm⟩
      · rw [if_neg hend] at h
        have hfull : s.read_offset + copy_size = n := hpart (by omega)
        refine .inr ⟨by omega, hfull, ?_⟩
        rw [← Option.some.inj h, hfull, decide_eq_false (Nat.lt_irrefl n)]

/-- What one round of the read loop preserves. -/
theorem inv_readNode (hs : s.Inv mem log n) (h : readNode mem n s = some s') :
    s'.Inv mem log n := by
  obtain ⟨hrun, node, copy_size, copied, rfl, hcopied, hle, hcase⟩ := readNode_cases h hs
  have hne := (hs.going hrun).1
  have hlen : copied.length = copy_size := by rw [hcopied, Memory.length_read]
  have hbuffer : (s.buffer.write s.read_offset copied).read 0 (s.read_offset + copy_size) =
      copiedBytes s.events ++ copied := by
    rw [← hlen, Memory.read_write_back, hs.buffer]
  rcases hcase with ⟨hrest, rfl⟩ | ⟨hpart, hfull, rfl⟩
  · have hlog := inv_complete hs.log hne hrest hcopied
    constructor
    case log => simpa using hlog
    case buffer => simpa using hbuffer
    case le => exact hle
    case going =>
        intro hmore
        have hmore := of_decide_eq_true hmore
        exact ⟨hmore.1, by simp [hmore.1, (hs.going hrun).2]⟩
    case left =>
        intro hleft
        have hleft := of_decide_eq_false hleft
        by_cases hempty : Ring.next s.list.read_index = s.list.write_index
        · exact ⟨if_pos hempty, .inr hempty⟩
        · have hfull : s.read_offset + copy_size = n :=
            Nat.le_antisymm hle (Nat.not_lt.mp fun hlt => hleft ⟨hempty, hlt⟩)
          exact ⟨(if_neg hempty).trans ((hs.going hrun).2.trans hfull.symm), .inl hfull⟩
  · have hlog := inv_copy hs.log hne hpart hcopied
    constructor
    case log => simpa using hlog
    case buffer => simpa using hbuffer
    case le => exact hle
    case going => simp
    case left => exact fun _ => ⟨(hs.going hrun).2.trans hfull.symm, .inl hfull⟩

/-- The loop is left when there is no further round. -/
theorem left_readNode_iff : Loop.Left (readNode mem n) s ↔ s.running = false := by
  rw [Loop.Left, readNode]
  cases s.running with
  | false => simp
  | true =>
      rw [if_pos rfl]
      dsimp only
      split_ifs <;> simp

/-- The rounds that are still possible. -/
def ReadState.remaining (s : ReadState size) : Nat :=
  if s.running then Ring.used s.list.read_index s.list.write_index + 1 else 0

/-- Every round but the last one completes a node. -/
theorem remaining_readNode (hs : s.Inv mem log n) (h : readNode mem n s = some s') :
    s'.remaining < s.remaining := by
  obtain ⟨hrun, node, copy_size, copied, rfl, -, -, hcase⟩ := readNode_cases h hs
  have hused := Ring.used_next_left (hs.going hrun).1
  rw [ReadState.remaining, ReadState.remaining, hrun, if_pos rfl]
  rcases hcase with ⟨-, rfl⟩ | ⟨-, -, rfl⟩
  · dsimp only
    split_ifs <;> omega
  · exact Nat.succ_pos _

/-- From a log of the list the read loop is left after as many rounds as there are nodes. -/
theorem left_readRounds (hlog : log.Inv mem) (buffer : Memory) (n : Nat) :
    Loop.Left (readNode mem n) (rtDataNodeRead mem log.list buffer n) := by
  refine Loop.left_rounds (P := ReadState.Inv mem log n) (m := ReadState.remaining)
    (fun _ _ hs h => ⟨inv_readNode hs h, remaining_readNode hs h⟩) (inv_start hlog buffer) ?_
  have hused := Ring.used_lt log.list.read_index log.list.write_index
  unfold ReadState.remaining
  split_ifs
  · exact hused
  · exact Nat.zero_le size

theorem inv_readRounds (hlog : log.Inv mem) (buffer : Memory) (n : Nat) :
    (rtDataNodeRead mem log.list buffer n).Inv mem log n :=
  Loop.rounds_invariant (fun _ _ hs h => inv_readNode hs h) (inv_start hlog buffer) size

end ReadState

/-! ## The queue of bytes -/

section Queue

variable {mem : Memory} {s : Log size}

/-- What a read leaves in its buffer are the bytes that were copied. -/
theorem read_result (hs : s.Inv mem) (buffer : Memory) (n : Nat) :
    (rtDataNodeRead mem s.list buffer n).buffer.read 0 (rtDataNodeRead mem s.list buffer n).result =
      copiedBytes (rtDataNodeRead mem s.list buffer n).events := by
  have hread := inv_readRounds hs buffer n
  rw [(hread.left (left_readNode_iff.mp (left_readRounds hs buffer n))).1]
  exact hread.buffer

theorem inv_read (hs : s.Inv mem) (buffer : Memory) (n : Nat) :
    (s.call mem (.rt_data_node_read buffer n)).Inv mem := by
  have hlog := (inv_readRounds hs buffer n).log
  rw [← read_result hs buffer n] at hlog
  exact hlog

/-- What every sequence of calls preserves. -/
theorem inv_run (mem : Memory) (h : 0 < size) (node : Fin size → DataNode) {calls : List Call}
    (hcalls : ∀ c ∈ calls, c.NonEmpty) : (run mem h node calls).Inv mem := by
  rw [run]
  generalize hstart : (⟨rtDataNodeInit h node, [], [], []⟩ : Log size) = s
  have hs : s.Inv mem := hstart ▸ inv_init h node
  clear hstart
  induction calls generalizing s with
  | nil => exact hs
  | cons c calls ih =>
      refine ih (fun c' hc' => hcalls c' (List.mem_cons_of_mem _ hc')) _ ?_
      have hc := hcalls c List.mem_cons_self
      cases c with
      | rt_data_node_write buffer => exact inv_write hs hc
      | rt_data_node_read buffer n => exact inv_read hs buffer n

/-- In an empty list everything is completed. -/
theorem delivered_of_empty (hs : s.Inv mem) (hempty : s.list.read_index = s.list.write_index) :
    completed s.events = s.accepted ∧
      s.delivered = s.accepted.flatMap (DataNode.bytes mem) := by
  have hwaiting : s.list.waiting = [] := by
    rw [DataNodeList.waiting, hempty, Ring.contents_self]
  have hcompleted : completed s.events = s.accepted := by
    rw [← hs.accepted, hwaiting, List.append_nil]
  have hstarted : s.list.started mem = [] := by
    rw [DataNodeList.started, hs.offset_eq hempty]
    rfl
  exact ⟨hcompleted, by rw [hs.delivered, hs.copied, hstarted, List.append_nil, hcompleted]⟩

/-- Otherwise a part of the oldest buffer was delivered, but not its end. -/
theorem delivered_of_ne (hs : s.Inv mem) (hne : s.list.read_index ≠ s.list.write_index) :
    ∃ node rest front back, s.accepted = completed s.events ++ node :: rest ∧
      node.bytes mem = front ++ back ∧ back ≠ [] ∧
      s.delivered = (completed s.events).flatMap (DataNode.bytes mem) ++ front := by
  have hlt := hs.offset_lt hne
  have hsplit := @bytes_eq_append mem (s.list.node s.list.read_index) s.list.data_offset
    ((s.list.node s.list.read_index).data_size - s.list.data_offset) (by omega)
  have haccepted := hs.accepted
  rw [DataNodeList.waiting, Ring.contents_of_ne s.list.node hne] at haccepted
  refine ⟨_, _, _, _, haccepted.symm, hsplit, ?_, hs.delivered.trans hs.copied⟩
  refine List.ne_nil_of_length_pos ?_
  rw [Memory.length_read]
  omega

/-- The bytes that were delivered are the first ones of the accepted buffers. -/
theorem delivered_isPrefix (hs : s.Inv mem) :
    s.delivered <+: s.accepted.flatMap (DataNode.bytes mem) := by
  by_cases hempty : s.list.read_index = s.list.write_index
  · exact ⟨[], by rw [List.append_nil, (delivered_of_empty hs hempty).2]⟩
  · obtain ⟨node, rest, front, back, haccepted, hbytes, -, hdelivered⟩ := delivered_of_ne hs hempty
    rw [hdelivered, haccepted, List.flatMap_append, List.flatMap_cons, hbytes, List.append_assoc]
    exact (List.prefix_append_right_inj _).mpr (List.prefix_append _ _)

/-- The buffers that wait: they were accepted and not completed. -/
def Log.waitingBuffers (s : Log size) : Nat :=
  s.accepted.length - (completed s.events).length

/-- The bytes that wait. -/
def Log.waitingBytes (mem : Memory) (s : Log size) : Nat :=
  (s.accepted.flatMap (DataNode.bytes mem)).length - s.delivered.length

theorem waitingBuffers_eq (hs : s.Inv mem) :
    s.waitingBuffers = Ring.used s.list.read_index s.list.write_index := by
  rw [Log.waitingBuffers, ← hs.accepted, List.length_append, DataNodeList.waiting,
    Ring.length_contents, Nat.add_sub_cancel_left]

/-- A write is refused when all nodes but one are used. -/
theorem refused_iff (hs : s.Inv mem) (buffer : DataNode) :
    (rtDataNodeWrite s.list buffer).2 = none ↔ s.waitingBuffers = size - 1 := by
  rw [waitingBuffers_eq hs, ← Ring.next_eq_iff]
  rcases rtDataNodeWrite_cases s.list buffer with ⟨hfull, heq⟩ | ⟨hfree, heq⟩
  · simp [heq, hfull]
  · simp [heq, hfree]

/-- A refused write changes nothing. -/
theorem call_refused {buffer : DataNode} (h : (rtDataNodeWrite s.list buffer).2 = none) :
    s.call mem (.rt_data_node_write buffer) = s := by
  rcases rtDataNodeWrite_cases s.list buffer with ⟨-, heq⟩ | ⟨-, heq⟩
  · simp only [Log.call, heq]
  · rw [heq] at h
    cases h

/-- A read returns its size or what waits, whichever is less. -/
theorem result_eq_min (hs : s.Inv mem) (buffer : Memory) (n : Nat) :
    (rtDataNodeRead mem s.list buffer n).result = min n (s.waitingBytes mem) := by
  have hread := inv_readRounds hs buffer n
  rcases hread.left (left_readNode_iff.mp (left_readRounds hs buffer n)) with ⟨hresult, hend⟩
  have hcopied : (copiedBytes (rtDataNodeRead mem s.list buffer n).events).length =
      (rtDataNodeRead mem s.list buffer n).read_offset := by
    rw [← hread.buffer, Memory.length_read]
  have htotal : (s.delivered ++ copiedBytes (rtDataNodeRead mem s.list buffer n).events).length ≤
      (s.accepted.flatMap (DataNode.bytes mem)).length := (delivered_isPrefix hread.log).length_le
  have hle := hread.le
  rw [List.length_append, hcopied] at htotal
  rw [hresult, Log.waitingBytes]
  rcases hend with hfull | hempty
  · rw [hfull] at htotal ⊢
    exact (Nat.min_eq_left (by omega)).symm
  · have hall : (s.delivered ++ copiedBytes (rtDataNodeRead mem s.list buffer n).events).length =
        (s.accepted.flatMap (DataNode.bytes mem)).length :=
      congrArg List.length (delivered_of_empty hread.log hempty).2
    rw [List.length_append, hcopied] at hall
    omega

/-- A part of a list of buffers has no more bytes than the list. -/
theorem length_flatMap_take_le (mem : Memory) (nodes : List DataNode) (i : Nat) :
    ((nodes.take i).flatMap (DataNode.bytes mem)).length ≤
      (nodes.flatMap (DataNode.bytes mem)).length := by
  conv_rhs => rw [← List.take_append_drop i nodes, List.flatMap_append, List.length_append]
  exact Nat.le_add_right _ _

/-- A buffer is completed as soon as its last byte was delivered. -/
theorem le_length_completed_iff (hs : s.Inv mem) {i : Nat} (hi : i ≤ s.accepted.length) :
    i ≤ (completed s.events).length ↔
      ((s.accepted.take i).flatMap (DataNode.bytes mem)).length ≤ s.delivered.length := by
  by_cases hempty : s.list.read_index = s.list.write_index
  · rcases delivered_of_empty hs hempty with ⟨hcompleted, hdelivered⟩
    rw [hcompleted, hdelivered]
    exact iff_of_true hi (length_flatMap_take_le mem s.accepted i)
  obtain ⟨node, rest, front, back, haccepted, hbytes, hback, hdelivered⟩ :=
    delivered_of_ne hs hempty
  rw [hdelivered, haccepted, List.length_append]
  constructor
  · intro hle
    rw [List.take_append_of_le_length hle]
    exact (length_flatMap_take_le mem _ i).trans (Nat.le_add_right _ _)
  · -- Behind the completed buffers the rest of the oldest one is missing.
    intro hle
    by_contra hlt
    obtain ⟨j, rfl⟩ : ∃ j, i = (completed s.events).length + (j + 1) :=
      ⟨i - (completed s.events).length - 1, by omega⟩
    have hpos := List.length_pos_of_ne_nil hback
    rw [List.take_length_add_append, List.take_succ_cons, List.flatMap_append, List.flatMap_cons,
      hbytes, List.length_append, List.length_append, List.length_append] at hle
    omega

/-- The list is a queue of bytes: what was delivered is a part of what was accepted, in order; a
write is refused when all nodes but one wait, and then changes nothing; a read comes to an end
and returns its size or what waits; and {lit}`read_complete` is called for the buffers in order,
for those whose last byte was delivered, right behind this byte. -/
structure Log.ByteQueue (mem : Memory) (s : Log size) : Prop where
  delivered : s.delivered <+: s.accepted.flatMap (DataNode.bytes mem)
  refused : ∀ buffer, (rtDataNodeWrite s.list buffer).2 = none ↔ s.waitingBuffers = size - 1
  unchanged : ∀ buffer, (rtDataNodeWrite s.list buffer).2 = none →
    s.call mem (.rt_data_node_write buffer) = s
  returns : ∀ buffer n, Loop.Left (readNode mem n) (rtDataNodeRead mem s.list buffer n)
  result : ∀ buffer n,
    (rtDataNodeRead mem s.list buffer n).result = min n (s.waitingBytes mem)
  completed : completed s.events <+: s.accepted
  ended : ∀ i ≤ s.accepted.length, i ≤ (Sound.completed s.events).length ↔
    ((s.accepted.take i).flatMap (DataNode.bytes mem)).length ≤ s.delivered.length
  copied : copiedBytes s.events = s.delivered
  prompt : Prompt mem s.events

/-- For every number of nodes from two on, whatever they hold, and after every sequence of
writes of non-empty buffers and reads of any sizes the list is a queue of bytes. -/
theorem node_list_faithful (mem : Memory) {k : Nat} (hk : 2 ≤ k) (node : Fin k → DataNode)
    {calls : List Call} (hcalls : ∀ c ∈ calls, c.NonEmpty) :
    (run mem (Nat.zero_lt_of_lt hk) node calls).ByteQueue mem := by
  have hs := inv_run mem (Nat.zero_lt_of_lt hk) node hcalls
  generalize run mem (Nat.zero_lt_of_lt hk) node calls = s at hs
  exact {
    delivered := delivered_isPrefix hs
    refused := refused_iff hs
    unchanged := fun _ => call_refused
    returns := left_readRounds hs
    result := result_eq_min hs
    completed := ⟨_, hs.accepted⟩
    ended := fun _ hi => le_length_completed_iff hs hi
    copied := hs.delivered.symm
    prompt := hs.prompt }

/-- Three nodes, of which two can wait, and a read that ends in the second buffer. -/
theorem node_list_faithful_three :
    (run (fun a => UInt8.ofNat a) (Nat.zero_lt_of_lt (Nat.le_succ 2)) (fun _ : Fin 3 => ⟨0, 0⟩)
      [.rt_data_node_write ⟨16, 3⟩, .rt_data_node_write ⟨32, 4⟩, .rt_data_node_write ⟨48, 1⟩,
        .rt_data_node_read (fun _ => 0) 5]).ByteQueue fun a => UInt8.ofNat a := by
  refine node_list_faithful _ (Nat.le_succ 2) _ ?_
  simp [Call.NonEmpty]

end Queue

end Sound

end WeatherStation
