import Dwadelib.Ipc.Client.Output.Arrival
import Dwadelib.Ipc.Client.Output.Transfer

namespace Dwadelib.Ipc.Client

/-! # What a reply can write

While a request waits, its node holds the parameters of the caller. Whatever is received as its
reply, the copies stay within what the caller gave exactly when the reply has brought all
that they use.
-/

/-- A request waits for its reply: its node holds the parameters of the caller. -/
structure Waiting (memory : Memory) (arrays : Arrays) (paramTypes : UInt32) : Prop
    extends Supplied memory arrays paramTypes where
  stored : ∀ place : Int, 0 ≤ place → place < (paramSize * numParams : Nat) →
    memory.byteAt (arrays.node.advance place) = memory.byteAt (arrays.caller.advance place)

/-- `ipc_convert_data` has filled in this parameter of a reply. -/
def DecodedFrom (replyTypes : UInt32) (index : Nat) : Prop :=
  index < getParamCount replyTypes ∧
    (isValue (paramTypeGet replyTypes index) = true ∨ isMemref (paramTypeGet replyTypes index) = true)

/-- Every byte of the extent is in a parameter that was filled in. -/
def OfDecoded (replyTypes : UInt32) (extent : Extent) : Prop :=
  ∀ shift : Nat, shift < extent.count → ∃ index, DecodedFrom replyTypes index ∧
    (paramSize * index : Nat) ≤ extent.start + shift ∧
    extent.start + shift < (paramSize * (index + 1) : Nat)

/-- The copy is for an output parameter, through the address the caller gave there and for no
more bytes than it gave, and it uses what the reply brought. -/
structure Transfer.Offered (transfer : Transfer) (memory : Memory) (arrays : Arrays)
    (paramTypes replyTypes : UInt32) : Prop where
  output : isValueOut (paramTypeGet paramTypes transfer.index) = true ∨
    isMemrefOut (paramTypeGet paramTypes transfer.index) = true
  through : ∀ address, transfer.through = some address →
    memory.loadPointer (paramAt arrays.caller transfer.index) = some address
  written : ∀ count, transfer.written = some count → ∃ size,
    memory.loadUInt32 (memrefSizeAt arrays.caller transfer.index) = some size ∧ count ≤ size.toNat
  used : ∀ extent ∈ transfer.used, OfDecoded replyTypes extent

/-- The request returns, and all that is copied for the reply is offered. -/
def AllOffered (memory : Memory) (arrays : Arrays) (paramTypes : UInt32) (received : Received)
    (replyTypes : UInt32) : Prop :=
  ∃ final transfers,
    synchronousAnswerTraced memory arrays paramTypes received = some (final, transfers) ∧
    ∀ transfer ∈ transfers, transfer.Offered memory arrays paramTypes replyTypes

/-- The reply has brought output parameter `index`. Of a reference it has brought every parameter
that a copy of its size reaches from there, and the size is at most the one that was given. -/
def Brought (memory reply : Memory) (arrays : Arrays) (paramTypes replyTypes : UInt32) (index : Nat) :
    Prop :=
  (isValueOut (paramTypeGet paramTypes index) = true → DecodedFrom replyTypes index) ∧
  (isMemrefOut (paramTypeGet paramTypes index) = true → DecodedFrom replyTypes index ∧
    ∃ given size, memory.loadUInt32 (memrefSizeAt arrays.caller index) = some given ∧
      reply.loadUInt32 (memrefSizeAt arrays.params index) = some size ∧ size.toNat ≤ given.toNat ∧
      ∀ other, index ≤ other → paramSize * other < paramSize * index + size.toNat →
        DecodedFrom replyTypes other)

section Offered

variable {origin memory stored reply state next : Memory} {arrays : Arrays}
  {paramTypes replyTypes : UInt32} {received : Received} {data : ConvertedData}
  {index count position : Nat} {transfers : List Transfer}

theorem Waiting.landed (waiting : Waiting memory arrays paramTypes) : Landed memory memory arrays :=
  ⟨waiting.stored, fun _ _ _ _ => rfl, waiting.params, waiting.paramsEnd⟩

theorem Landed.valid_outside {pointer : Pointer} (landed : Landed memory reply arrays)
    (outside : arrays.Outside pointer) (valid : memory.Valid pointer count) :
    reply.Valid pointer count := by
  simp only [Arrays.Outside, List.mem_cons, List.not_mem_nil, or_false, not_or] at outside
  intro shift inside
  rw [landed.elsewhere (pointer.advance shift) outside.2.1 outside.2.2.1 outside.2.2.2]
  exact valid shift inside

theorem Supplied.waiting (supplied : Supplied origin arrays paramTypes)
    (landed : Landed origin memory arrays)
    (buff : ∃ content, memory.Object arrays.buff content ∧ content.length = buffMaxNum) :
    Waiting memory arrays paramTypes := by
  obtain ⟨callerNode, callerBuff, callerParams, _⟩ := arrays.apart
  have callerKept : ∀ query : Pointer, query.block = arrays.caller.block →
      memory.byteAt query = origin.byteAt query := by
    intro query inCaller
    exact landed.elsewhere query (by rwa [inCaller]) (by rwa [inCaller]) (by rwa [inCaller])
  exact {
    caller := by
      intro index inside
      rw [callerKept (arrays.caller.advance index) rfl]
      exact supplied.caller index inside
    node := landed.node_valid supplied.caller
    params := landed.params
    paramsEnd := landed.paramsEnd
    buff
    memrefs := by
      intro index counted memref
      obtain ⟨address, size, pointed, sized, target⟩ := supplied.memrefs index counted memref
      refine ⟨address, size, ?_, ?_, fun nonempty => ?_⟩
      · rw [← pointed]
        exact Memory.loadPointer_congr (Memory.read_congr fun _ _ => callerKept _ rfl)
      · rw [← sized]
        exact Memory.loadUInt32_congr (Memory.read_congr fun _ _ => callerKept _ rfl)
      · obtain ⟨pointer, given, valid, outside⟩ := target nonempty
        exact ⟨pointer, given, landed.valid_outside outside valid, outside⟩
    stored := by
      intro place lower upper
      rw [landed.node place lower upper, callerKept (arrays.caller.advance place) rfl] }

/-- A request waits from where its parameters are stored. -/
theorem waiting_of_stored (supplied : Supplied memory arrays paramTypes)
    (storing : storeParams memory arrays = some stored) : Waiting stored arrays paramTypes := by
  obtain ⟨_, _, _, nodeBuff, _⟩ := arrays.apart
  obtain ⟨content, object, full⟩ := supplied.buff
  obtain ⟨_, known, copied⟩ := storeParams_copied supplied.caller supplied.node
  cases known.symm.trans storing
  exact supplied.waiting (landed_of_stored supplied storing) ⟨content, object.congr fun query same =>
    copied.elsewhere (by rw [same]; exact Ne.symm nodeBuff), full⟩

theorem Waiting.arrival (waiting : Waiting memory arrays paramTypes)
    (arrived : receiveReply memory arrays received = some data) :
    Landed memory data.memory arrays := by
  obtain ⟨content, object, full⟩ := waiting.buff
  exact waiting.landed.receive object full arrived

theorem ofDecoded_param (replyTypes : UInt32) (index : Nat) {shift width : Nat} (nonempty : width ≠ 0)
    (within : shift + width ≤ paramSize) :
    OfDecoded replyTypes ⟨(paramSize * index : Nat) + shift, width⟩ ↔ DecodedFrom replyTypes index := by
  simp only [paramSize] at within
  constructor
  · intro used
    obtain ⟨found, decoded, lower, upper⟩ := used 0 (Nat.pos_of_ne_zero nonempty)
    simp only [paramSize] at lower upper
    have same : found = index := by omega
    rwa [same] at decoded
  · intro decoded place inside
    refine ⟨index, decoded, ?_, ?_⟩
    · simp only
      omega
    · simp only [paramSize] at inside ⊢
      omega

theorem ofDecoded_size (replyTypes : UInt32) (index size : Nat) :
    OfDecoded replyTypes ⟨(paramSize * index : Nat), size⟩ ↔
      ∀ other, index ≤ other → paramSize * other < paramSize * index + size →
        DecodedFrom replyTypes other := by
  constructor
  · intro used other lower reached
    obtain ⟨found, decoded, before, beyond⟩ := used (paramSize * other - paramSize * index) (by
      simp only [paramSize] at reached ⊢
      omega)
    simp only [paramSize] at before beyond
    have same : found = other := by omega
    rwa [same] at decoded
  · intro every shift inside
    simp only at inside
    refine ⟨index + shift / paramSize, every _ (Nat.le_add_right _ _) ?_, ?_, ?_⟩
    · simp only [paramSize]
      omega
    · simp only [paramSize]
      omega
    · simp only [paramSize]
      omega

/-- The parameters a copy reaches are all there, so it stays in the array. -/
theorem reached_inside {size : Nat} (reaches : ∀ other, index ≤ other →
      paramSize * other < paramSize * index + size → DecodedFrom replyTypes other)
    (known : index < numParams) : paramSize * index + size ≤ paramSize * numParams := by
  by_contra beyond
  obtain ⟨counted, _⟩ := reaches numParams (Nat.le_of_lt known) (by omega)
  exact absurd counted (Nat.not_lt.mpr (getParamCount_le replyTypes))

/-- What is given for a reference that the reply has brought. -/
theorem Brought.reference (brought : Brought memory reply arrays paramTypes replyTypes index)
    (supplied : Supplied memory arrays paramTypes) (counted : index < getParamCount paramTypes)
    (memref : isMemrefOut (paramTypeGet paramTypes index) = true) :
    ∃ given size : UInt32, memory.loadUInt32 (memrefSizeAt arrays.caller index) = some given ∧
      reply.loadUInt32 (memrefSizeAt arrays.params index) = some size ∧ size.toNat ≤ given.toNat ∧
      paramSize * index + size.toNat ≤ paramSize * numParams ∧
      (size.toNat ≠ 0 → ∃ pointer,
        memory.loadPointer (paramAt arrays.caller index) = some (some pointer) ∧
        memory.Valid pointer size.toNat ∧ arrays.Outside pointer) := by
  obtain ⟨_, given, size, offered, loaded, fits, reaches⟩ := brought.2 memref
  have known := Nat.lt_of_lt_of_le counted (getParamCount_le paramTypes)
  refine ⟨given, size, offered, loaded, fits, reached_inside reaches known, fun nonempty => ?_⟩
  obtain ⟨address, sized, pointed, givenSized, target⟩ :=
    supplied.memrefs index counted (isMemref_of_isMemrefOut memref)
  cases givenSized.symm.trans offered
  obtain ⟨pointer, rfl, valid, outside⟩ := target (by omega)
  exact ⟨pointer, pointed, fun shift inside => valid shift (by omega), outside⟩

/-- While `process_sync_call` runs: the reply and the pointers are as they were, the references
so far have the sizes of the reply, and every object is as long as it was. -/
structure Syncing (reply state : Memory) (arrays : Arrays) (paramTypes : UInt32) (position : Nat) :
    Prop where
  params : ∀ query : Pointer, query.block = arrays.params.block →
    state.byteAt query = reply.byteAt query
  pointers : ∀ index, isMemrefOut (paramTypeGet paramTypes index) = true →
    state.read (paramAt arrays.node index) 8 = reply.read (paramAt arrays.node index) 8
  sizes : ∀ index < position, isMemrefOut (paramTypeGet paramTypes index) = true →
    state.loadUInt32 (memrefSizeAt arrays.node index) =
      reply.loadUInt32 (memrefSizeAt arrays.params index)
  valid : ∀ (pointer : Pointer) (count : Nat), reply.Valid pointer count → state.Valid pointer count

theorem Syncing.size (held : Syncing reply state arrays paramTypes position) (index : Nat) :
    state.loadUInt32 (memrefSizeAt arrays.params index) =
      reply.loadUInt32 (memrefSizeAt arrays.params index) :=
  Memory.loadUInt32_congr (Memory.read_congr fun _ _ => held.params _ rfl)

theorem Syncing.pointer (held : Syncing reply state arrays paramTypes position)
    (landed : Landed memory reply arrays) (known : index < numParams)
    (memref : isMemrefOut (paramTypeGet paramTypes index) = true) :
    state.loadPointer (paramAt arrays.node index) = memory.loadPointer (paramAt arrays.caller index) := by
  rw [Memory.loadPointer_congr (held.pointers index memref), landed.loadPointer known]

/-- The copy of a value goes through no address and has no size. -/
theorem offered_of_value {used : List Extent}
    (value : isValueOut (paramTypeGet paramTypes index) = true)
    (decoded : ∀ extent ∈ used, OfDecoded replyTypes extent) :
    (Transfer.mk index used none none).Offered memory arrays paramTypes replyTypes := by
  refine ⟨.inl value, ?_, ?_, decoded⟩
  · intro address absent
    contradiction
  · intro count absent
    contradiction

/-- What it takes for the copy of a reference: its size is a part of the parameter, its bytes are
the parameters they reach. -/
theorem memref_offered_iff {size : UInt32}
    (memref : isMemrefOut (paramTypeGet paramTypes index) = true)
    (sized : reply.loadUInt32 (memrefSizeAt arrays.params index) = some size) :
    (Transfer.mk index
        [⟨(paramSize * index : Nat) + 8, uint32Size⟩, ⟨(paramSize * index : Nat), size.toNat⟩]
        (memory.loadPointer (paramAt arrays.caller index)) (some size.toNat)).Offered
      memory arrays paramTypes replyTypes ↔
      Brought memory reply arrays paramTypes replyTypes index := by
  have notValue := isValueOut_eq_false_of_isMemrefOut memref
  have sizeOf : OfDecoded replyTypes ⟨(paramSize * index : Nat) + 8, uint32Size⟩ ↔
      DecodedFrom replyTypes index := ofDecoded_param replyTypes index (by decide) (by decide)
  constructor
  · intro offered
    refine ⟨fun isValue => ?_, fun _ => ?_⟩
    · rw [notValue] at isValue
      contradiction
    · obtain ⟨given, supplied, fits⟩ := offered.written size.toNat rfl
      have decoded := sizeOf.mp (offered.used _ List.mem_cons_self)
      have reached := (ofDecoded_size replyTypes index size.toNat).mp
        (offered.used _ (List.mem_cons_of_mem _ List.mem_cons_self))
      exact ⟨decoded, given, size, supplied, sized, fits, reached⟩
  · intro brought
    obtain ⟨decoded, given, word, supplied, loaded, fits, reached⟩ := brought.2 memref
    cases loaded.symm.trans sized
    refine ⟨.inr memref, fun _ => id, fun count written => ?_, fun extent inUsed => ?_⟩
    · cases written
      exact ⟨given, supplied, fits⟩
    · rcases List.mem_cons.mp inUsed with rfl | inRest
      · exact sizeOf.mpr decoded
      · cases List.mem_singleton.mp inRest
        exact (ofDecoded_size replyTypes index size.toNat).mpr reached

/-- The copy of an iteration is offered exactly when the reply has brought its parameter. -/
theorem processSync_offered_iff (held : Syncing reply state arrays paramTypes position)
    (landed : Landed memory reply arrays) (known : index < numParams)
    (readable : isMemrefOut (paramTypeGet paramTypes index) = true →
      ∃ size, reply.loadUInt32 (memrefSizeAt arrays.params index) = some size) :
    (∀ transfer ∈ processSyncTransfer arrays paramTypes index state,
      transfer.Offered memory arrays paramTypes replyTypes) ↔
      Brought memory reply arrays paramTypes replyTypes index := by
  have notBoth : isValueOut (paramTypeGet paramTypes index) = true →
      ¬ isMemrefOut (paramTypeGet paramTypes index) = true := by
    intro value memref
    rw [isValueOut_eq_false_of_isMemrefOut memref] at value
    contradiction
  have whole : OfDecoded replyTypes ⟨(paramSize * index : Nat), paramSize⟩ ↔
      DecodedFrom replyTypes index := by
    have param := ofDecoded_param replyTypes index (show paramSize ≠ 0 by decide) (Nat.le_of_eq (Nat.zero_add _))
    rwa [Nat.cast_zero, Int.add_zero] at param
  by_cases value : isValueOut (paramTypeGet paramTypes index) = true
  · rw [processSyncTransfer_value value]
    constructor
    · intro every
      have offered := every _ (List.mem_singleton_self _)
      exact ⟨fun _ => whole.mp (offered.used _ (List.mem_singleton_self _)),
        fun memref => absurd memref (notBoth value)⟩
    · intro brought transfer present
      cases List.mem_singleton.mp present
      apply offered_of_value value
      intro extent inUsed
      cases List.mem_singleton.mp inUsed
      exact whole.mpr (brought.1 value)
  · by_cases memref : isMemrefOut (paramTypeGet paramTypes index) = true
    · obtain ⟨size, sized⟩ := readable memref
      rw [processSyncTransfer_memref memref ((held.size index).trans sized),
        held.pointer landed known memref, ← memref_offered_iff memref sized]
      exact List.forall_mem_singleton
    · rw [processSyncTransfer_skipped value memref]
      constructor
      · intro _
        exact ⟨fun isValue => absurd isValue value, fun isMemref => absurd isMemref memref⟩
      · intro _ transfer present
        exact absurd present List.not_mem_nil

theorem Syncing.initial : Syncing reply reply arrays paramTypes 0 :=
  ⟨fun _ _ => rfl, fun _ _ => rfl, fun _ before => absurd before (Nat.not_lt_zero _),
    fun _ _ valid => valid⟩

/-- The copy to the node keeps the account, with the size of the iteration. -/
theorem Syncing.copied {middle : Memory} (held : Syncing reply state arrays paramTypes position)
    (room : reply.Valid arrays.params (paramSize * numParams)) (known : position < numParams)
    (copied : Memory.Copied state middle arrays.node arrays.params (outPlaces paramTypes 0 position)) :
    Syncing reply middle arrays paramTypes (position + 1) := by
  obtain ⟨_, _, _, _, nodeParams, _⟩ := arrays.apart
  refine ⟨?_, ?_, ?_, ?_⟩
  · intro query inParams
    rw [copied.elsewhere (by rw [inParams]; exact Ne.symm nodeParams), held.params query inParams]
  · intro other memref
    rw [read_pointer_kept copied memref, held.pointers other memref]
  · intro other before memref
    by_cases now : other = position
    · subst now
      rw [loadUInt32_size_copied copied memref, held.size other]
    · rw [loadUInt32_size_kept copied now, held.sizes other (by omega) memref]
  · intro pointer count valid
    refine copied.valid ?_ (held.valid pointer count valid)
    intro place picked
    rw [held.params (arrays.params.advance place) rfl]
    have below : outPlacesBelow paramTypes (fun _ => 0) (position + 1) place :=
      ⟨position, Nat.lt_succ_self position, picked⟩
    obtain ⟨lower, upper⟩ := outPlacesBelow_inside known (by
      intro other before _
      exact Nat.mul_le_mul_left paramSize (by omega)) below
    exact room.place lower upper

/-- A store outside the node and the receiver keeps it. -/
theorem Syncing.write {middle : Memory} {pointer : Pointer} {bytes : List Byte}
    (held : Syncing reply middle arrays paramTypes position)
    (written : middle.write pointer bytes = some next) (outside : arrays.Outside pointer) :
    Syncing reply next arrays paramTypes position := by
  simp only [Arrays.Outside, List.mem_cons, List.not_mem_nil, or_false, not_or] at outside
  have frame : ∀ query : Pointer, query.block ≠ pointer.block →
      next.byteAt query = middle.byteAt query := by
    intro query different
    rw [Memory.byteAt_write written, if_neg fun inside => different inside.1]
  have nodeKept : ∀ query : Pointer, query.block = arrays.node.block → ∀ count,
      next.read query count = middle.read query count := by
    intro query inNode count
    exact Memory.read_congr fun _ _ => frame _ (by
      rw [Pointer.advance_block, inNode]; exact Ne.symm outside.2.1)
  refine ⟨?_, ?_, ?_, ?_⟩
  · intro query inParams
    rw [frame query (by rw [inParams]; exact Ne.symm outside.2.2.2), held.params query inParams]
  · intro other memref
    rw [nodeKept (paramAt arrays.node other) rfl, held.pointers other memref]
  · intro other before memref
    rw [Memory.loadUInt32_congr (nodeKept (memrefSizeAt arrays.node other) rfl 4), held.sizes other before memref]
  · intro query count valid
    exact (Memory.valid_write_iff written).mpr (held.valid query count valid)

theorem syncing_step (supplied : Supplied memory arrays paramTypes)
    (landed : Landed memory reply arrays) (reached : position < getParamCount paramTypes)
    (brought : Brought memory reply arrays paramTypes replyTypes position)
    (held : Syncing reply state arrays paramTypes position)
    (step : processSyncParam arrays paramTypes position state = some next) :
    Syncing reply next arrays paramTypes (position + 1) := by
  have known := Nat.lt_of_lt_of_le reached (getParamCount_le paramTypes)
  by_cases memref : isMemrefOut (paramTypeGet paramTypes position) = true
  · obtain ⟨given, size, _, loaded, _, _, target⟩ := brought.reference supplied reached memref
    have sized : isMemrefOut (paramTypeGet paramTypes position) = true →
        Sized state arrays.params position size.toNat :=
      fun _ => ⟨size, (held.size position).trans loaded, rfl⟩
    obtain ⟨middle, copied, moved⟩ := processSyncParam_writes sized step
    have kept := held.copied landed.params known copied
    rcases moved with ⟨_, rfl⟩ | ⟨_, something, pointer, bytes, targeted, _, written⟩
    · exact kept
    · obtain ⟨object, pointed, _, outside⟩ := target something
      rw [kept.pointer landed known memref, pointed] at targeted
      cases targeted
      exact kept.write written outside
  · have sized : isMemrefOut (paramTypeGet paramTypes position) = true →
        Sized state arrays.params position 0 := fun isMemref => absurd isMemref memref
    obtain ⟨middle, copied, moved⟩ := processSyncParam_writes sized step
    rcases moved with ⟨_, rfl⟩ | ⟨isMemref, _⟩
    · exact held.copied landed.params known copied
    · exact absurd isMemref memref

theorem processSyncParam_exists (supplied : Supplied memory arrays paramTypes)
    (landed : Landed memory reply arrays) (reached : position < getParamCount paramTypes)
    (brought : Brought memory reply arrays paramTypes replyTypes position)
    (held : Syncing reply state arrays paramTypes position) :
    ∃ next, processSyncParam arrays paramTypes position state = some next := by
  obtain ⟨_, _, _, _, nodeParams, _⟩ := arrays.apart
  have known := Nat.lt_of_lt_of_le reached (getParamCount_le paramTypes)
  have params := held.valid _ _ landed.params
  have node := held.valid _ _ (landed.node_valid supplied.caller)
  by_cases value : isValueOut (paramTypeGet paramTypes position) = true
  · rw [processSyncParam_value value]
    exact Memory.memcpy_exists (valid_param params known) (valid_param node known)
  · by_cases memref : isMemrefOut (paramTypeGet paramTypes position) = true
    · obtain ⟨given, size, _, loaded, _, room, target⟩ := brought.reference supplied reached memref
      have sized := (held.size position).trans loaded
      obtain ⟨middle, stored⟩ := storeSize_exists node known size
      have kept : Syncing reply middle arrays paramTypes (position + 1) := by
        apply held.copied landed.params known
        apply (storeSize_copied sized stored).congr
        intro place
        rw [outPlaces_memref memref]
        omega
      obtain ⟨bytes, read⟩ := ((kept.valid _ _ landed.params).sub room).read_exists
      have length := Memory.length_of_read read
      have reloaded := loadUInt32_storeUInt32_apart (Ne.symm nodeParams) sized stored
      obtain ⟨buffer, pointed⟩ :=
        (valid_pointer (kept.valid _ _ (landed.node_valid supplied.caller)) known).loadPointer_exists
      obtain ⟨next, written⟩ : ∃ next, middle.writeThrough buffer bytes = some next := by
        by_cases nothing : size.toNat = 0
        · rw [List.eq_nil_of_length_eq_zero (length.trans nothing)]
          exact ⟨middle, Memory.writeThrough_nil⟩
        · obtain ⟨object, given, valid, outside⟩ := target nothing
          rw [kept.pointer landed known memref, given] at pointed
          cases pointed
          rw [Memory.writeThrough_some]
          exact Memory.write_exists (length ▸ kept.valid _ _ (landed.valid_outside outside valid))
      exact ⟨next, (processSyncParam_memref memref).mpr
        ⟨size, middle, buffer, size, bytes, sized, stored, pointed, reloaded, read, written⟩⟩
    · exact ⟨state, processSyncParam_skipped value memref⟩

/-- Where every copy of the first loop is offered, the reply has brought every parameter. -/
theorem brought_of_processed {processed : Memory} (supplied : Supplied memory arrays paramTypes)
    (landed : Landed memory reply arrays)
    (completed : forRangeTraced 0 (getParamCount paramTypes) (processSyncParam arrays paramTypes)
      (processSyncTransfer arrays paramTypes) reply = some (processed, transfers))
    (offered : ∀ transfer ∈ transfers, transfer.Offered memory arrays paramTypes replyTypes) :
    ∀ index < getParamCount paramTypes, Brought memory reply arrays paramTypes replyTypes index := by
  have reached := forRangeTraced_invariant
    (fun position state => Syncing reply state arrays paramTypes position ∧
      ∀ index < position, Brought memory reply arrays paramTypes replyTypes index)
    (by
      intro position state next _ upper held step present
      have counted : position < getParamCount paramTypes := by omega
      have known := Nat.lt_of_lt_of_le counted (getParamCount_le paramTypes)
      have brought : Brought memory reply arrays paramTypes replyTypes position := by
        apply (processSync_offered_iff held.1 landed known ?_).mp
        · intro transfer inNote
          exact offered transfer (present transfer inNote)
        · intro memref
          rw [← held.1.size position]
          exact processSyncParam_readable memref step
      refine ⟨syncing_step supplied landed counted brought held.1 step, fun index before => ?_⟩
      rcases Nat.lt_succ_iff_lt_or_eq.mp before with earlier | last
      · exact held.2 index earlier
      · exact last ▸ brought)
    ⟨Syncing.initial, fun index before => absurd before (Nat.not_lt_zero index)⟩ completed
  rw [Nat.zero_add] at reached
  exact reached.2

theorem processed_of_brought (supplied : Supplied memory arrays paramTypes)
    (landed : Landed memory reply arrays)
    (brought : ∀ index < getParamCount paramTypes,
      Brought memory reply arrays paramTypes replyTypes index) :
    ∃ processed transfers,
      forRangeTraced 0 (getParamCount paramTypes) (processSyncParam arrays paramTypes)
        (processSyncTransfer arrays paramTypes) reply = some (processed, transfers) ∧
      (∀ transfer ∈ transfers, transfer.Offered memory arrays paramTypes replyTypes) ∧
      Syncing reply processed arrays paramTypes (getParamCount paramTypes) := by
  have looped : ∃ processed transfers,
      forRangeTraced 0 (getParamCount paramTypes) (processSyncParam arrays paramTypes)
        (processSyncTransfer arrays paramTypes) reply = some (processed, transfers) ∧
      (∀ transfer ∈ transfers, transfer.Offered memory arrays paramTypes replyTypes) ∧
      Syncing reply processed arrays paramTypes (0 + getParamCount paramTypes) :=
    forRangeTraced_total (fun position state => Syncing reply state arrays paramTypes position) _
      (fun position state _ upper held => by
      have counted : position < getParamCount paramTypes := by omega
      have known := Nat.lt_of_lt_of_le counted (getParamCount_le paramTypes)
      obtain ⟨next, step⟩ := processSyncParam_exists supplied landed counted (brought _ counted) held
      refine ⟨?_, next, step, syncing_step supplied landed counted (brought _ counted) held step⟩
      apply (processSync_offered_iff held landed known ?_).mpr (brought _ counted)
      intro memref
      obtain ⟨_, _, size, _, loaded, _⟩ := (brought _ counted).2 memref
      exact ⟨size, loaded⟩)
    Syncing.initial
  rwa [Nat.zero_add] at looped

theorem returnTransfer_offered (brought : Brought memory reply arrays paramTypes replyTypes index)
    (sized : isMemrefOut (paramTypeGet paramTypes index) = true →
      state.loadUInt32 (memrefSizeAt arrays.node index) =
        reply.loadUInt32 (memrefSizeAt arrays.params index)) :
    ∀ transfer ∈ returnTransfer arrays paramTypes index state,
      transfer.Offered memory arrays paramTypes replyTypes := by
  intro transfer present
  simp only [returnTransfer] at present
  split at present
  · rename_i value
    cases List.mem_singleton.mp present
    exact offered_of_value value fun _ absent => absurd absent List.not_mem_nil
  · split at present
    · rename_i memref
      obtain ⟨_, given, size, offered, loaded, fits, _⟩ := brought.2 memref
      rw [sized memref, loaded] at present
      cases List.mem_singleton.mp present
      refine ⟨.inr memref, ?_, ?_, fun _ absent => absurd absent List.not_mem_nil⟩
      · intro address absent
        contradiction
      · intro count written
        cases written
        exact ⟨given, offered, fits⟩
    · exact absurd present List.not_mem_nil

theorem returnParam_valid (completed : returnParam arrays paramTypes index state = some next)
    {query : Pointer} (valid : state.Valid query count) : next.Valid query count := by
  by_cases value : isValueOut (paramTypeGet paramTypes index) = true
  · rw [returnParam_value value] at completed
    obtain ⟨bytes, _, written⟩ := Memory.memcpy_eq_some.mp completed
    exact (Memory.valid_write_iff written).mpr valid
  · by_cases memref : isMemrefOut (paramTypeGet paramTypes index) = true
    · obtain ⟨_, _, _, _, _, _, stored, _, _, _, written⟩ := (returnParam_memref memref).mp completed
      exact (Memory.valid_write_iff written).mpr ((Memory.valid_write_iff stored).mpr valid)
    · rw [returnParam_skipped value memref] at completed
      cases completed
      exact valid

/-- While the last loop of `ipc_client_request` runs: only the array of the caller changes. -/
structure Returning (processed state : Memory) (arrays : Arrays) : Prop where
  elsewhere : ∀ query : Pointer, query.block ≠ arrays.caller.block →
    state.byteAt query = processed.byteAt query
  caller : state.Valid arrays.caller (paramSize * numParams)

theorem Returning.valid {processed : Memory} {query : Pointer}
    (held : Returning processed state arrays) (elsewhere : query.block ≠ arrays.caller.block)
    (valid : processed.Valid query count) : state.Valid query count := by
  intro shift inside
  rw [held.elsewhere (query.advance shift) elsewhere]
  exact valid shift inside

theorem Returning.read {processed : Memory} {query : Pointer}
    (held : Returning processed state arrays) (elsewhere : query.block ≠ arrays.caller.block) :
    state.read query count = processed.read query count :=
  Memory.read_congr fun _ _ => held.elsewhere _ elsewhere

theorem Returning.size {processed : Memory} (held : Returning processed state arrays)
    (synced : Syncing reply processed arrays paramTypes (getParamCount paramTypes))
    (counted : index < getParamCount paramTypes)
    (memref : isMemrefOut (paramTypeGet paramTypes index) = true) :
    state.loadUInt32 (memrefSizeAt arrays.node index) =
      reply.loadUInt32 (memrefSizeAt arrays.params index) := by
  obtain ⟨callerNode, _⟩ := arrays.apart
  rw [← synced.sizes index counted memref]
  exact Memory.loadUInt32_congr (held.read (Ne.symm callerNode))

theorem Returning.pointer {processed : Memory} (held : Returning processed state arrays)
    (landed : Landed memory reply arrays)
    (synced : Syncing reply processed arrays paramTypes position) (known : index < numParams)
    (memref : isMemrefOut (paramTypeGet paramTypes index) = true) :
    state.loadPointer (paramAt arrays.node index) = memory.loadPointer (paramAt arrays.caller index) := by
  obtain ⟨callerNode, _⟩ := arrays.apart
  rw [← synced.pointer landed known memref]
  exact Memory.loadPointer_congr (held.read (Ne.symm callerNode))

theorem returnParam_exists {processed : Memory} (supplied : Supplied memory arrays paramTypes)
    (landed : Landed memory reply arrays) (counted : index < getParamCount paramTypes)
    (brought : Brought memory reply arrays paramTypes replyTypes index)
    (synced : Syncing reply processed arrays paramTypes (getParamCount paramTypes))
    (held : Returning processed state arrays) :
    ∃ next, returnParam arrays paramTypes index state = some next := by
  obtain ⟨callerNode, _⟩ := arrays.apart
  have known := Nat.lt_of_lt_of_le counted (getParamCount_le paramTypes)
  have node : state.Valid arrays.node (paramSize * numParams) :=
    held.valid (Ne.symm callerNode) (synced.valid _ _ (landed.node_valid supplied.caller))
  by_cases value : isValueOut (paramTypeGet paramTypes index) = true
  · rw [returnParam_value value]
    exact Memory.memcpy_exists (valid_param node known) (valid_param held.caller known)
  · by_cases memref : isMemrefOut (paramTypeGet paramTypes index) = true
    · obtain ⟨given, size, _, loaded, _, room, target⟩ := brought.reference supplied counted memref
      have sized := (held.size synced counted memref).trans loaded
      obtain ⟨middle, stored⟩ := storeSize_exists held.caller known size
      obtain ⟨buffer, pointed⟩ :=
        (valid_pointer ((Memory.valid_write_iff stored).mpr node) known).loadPointer_exists
      obtain ⟨bytes, read⟩ : ∃ bytes, middle.readThrough buffer size.toNat = some bytes := by
        by_cases nothing : size.toNat = 0
        · rw [nothing]
          exact ⟨[], Memory.readThrough_zero⟩
        · obtain ⟨object, given, valid, outside⟩ := target nothing
          have pointerKept : middle.read (paramAt arrays.node index) 8 =
              state.read (paramAt arrays.node index) 8 :=
            Memory.read_write_apart stored _ _ (.inl (Ne.symm callerNode))
          rw [Memory.loadPointer_congr pointerKept, held.pointer landed synced known memref,
            given] at pointed
          cases pointed
          have apart := outside
          simp only [Arrays.Outside, List.mem_cons, not_or] at apart
          rw [Memory.readThrough_some]
          exact ((Memory.valid_write_iff stored).mpr (held.valid apart.1
            (synced.valid _ _ (landed.valid_outside outside valid)))).read_exists
      have length := Memory.length_of_readThrough read
      obtain ⟨next, written⟩ := Memory.write_exists
        (length ▸ ((Memory.valid_write_iff stored).mpr held.caller).sub room)
      exact ⟨next, (returnParam_memref memref).mpr ⟨size, middle, buffer, size, bytes, sized, stored,
        pointed, Memory.loadUInt32_storeUInt32 stored, read, written⟩⟩
    · exact ⟨state, returnParam_skipped value memref⟩

theorem returned_of_brought {processed : Memory} (supplied : Supplied memory arrays paramTypes)
    (landed : Landed memory reply arrays)
    (synced : Syncing reply processed arrays paramTypes (getParamCount paramTypes))
    (brought : ∀ index < getParamCount paramTypes,
      Brought memory reply arrays paramTypes replyTypes index) :
    ∃ final transfers,
      forRangeTraced 0 (getParamCount paramTypes) (returnParam arrays paramTypes)
        (returnTransfer arrays paramTypes) processed = some (final, transfers) ∧
      ∀ transfer ∈ transfers, transfer.Offered memory arrays paramTypes replyTypes := by
  obtain ⟨callerNode, callerBuff, callerParams, _⟩ := arrays.apart
  have caller : processed.Valid arrays.caller (paramSize * numParams) := by
    apply synced.valid
    intro shift inside
    rw [landed.elsewhere (arrays.caller.advance shift) callerNode callerBuff callerParams]
    exact supplied.caller shift inside
  have looped : ∃ final transfers,
      forRangeTraced 0 (getParamCount paramTypes) (returnParam arrays paramTypes)
        (returnTransfer arrays paramTypes) processed = some (final, transfers) ∧
      (∀ transfer ∈ transfers, transfer.Offered memory arrays paramTypes replyTypes) ∧
      Returning processed final arrays :=
    forRangeTraced_total (fun _ state => Returning processed state arrays) _
      (fun position state _ upper held => by
      have counted : position < getParamCount paramTypes := by omega
      obtain ⟨next, step⟩ :=
        returnParam_exists supplied landed counted (brought _ counted) synced held
      refine ⟨returnTransfer_offered (brought _ counted) (held.size synced counted), next, step, ?_, ?_⟩
      · intro query elsewhere
        rw [returnParam_frame step (.inl elsewhere), held.elsewhere query elsewhere]
      · exact returnParam_valid step held.caller)
    ⟨fun _ _ => rfl, caller⟩
  obtain ⟨final, transfers, completed, offered, _⟩ := looped
  exact ⟨final, transfers, completed, offered⟩

theorem brought_of_allOffered (waiting : Waiting memory arrays paramTypes)
    (arrived : receiveReply memory arrays received = some data)
    (all : AllOffered memory arrays paramTypes received data.paramTypes) :
    ∀ index < getParamCount paramTypes,
      Brought memory data.memory arrays paramTypes data.paramTypes index := by
  obtain ⟨final, transfers, completed, offered⟩ := all
  obtain ⟨processed, first, second, processing, _, rfl⟩ :=
    (synchronousAnswerTraced_eq_some arrived).mp completed
  exact brought_of_processed waiting.toSupplied (waiting.arrival arrived) processing
    fun transfer inFirst => offered transfer (List.mem_append_left second inFirst)

/-- All that is copied for a reply is offered exactly when the reply has brought every output
parameter of the request. -/
theorem allOffered_iff_brought (waiting : Waiting memory arrays paramTypes)
    (arrived : receiveReply memory arrays received = some data) :
    AllOffered memory arrays paramTypes received data.paramTypes ↔
      ∀ index < getParamCount paramTypes,
        Brought memory data.memory arrays paramTypes data.paramTypes index := by
  constructor
  · exact brought_of_allOffered waiting arrived
  · intro brought
    have landed := waiting.arrival arrived
    obtain ⟨processed, first, processing, firstOffered, synced⟩ :=
      processed_of_brought waiting.toSupplied landed brought
    obtain ⟨final, second, returning, secondOffered⟩ :=
      returned_of_brought waiting.toSupplied landed synced brought
    refine ⟨final, first ++ second, (synchronousAnswerTraced_eq_some arrived).mpr
      ⟨processed, first, second, processing, returning, rfl⟩, ?_⟩
    intro transfer present
    rcases List.mem_append.mp present with inFirst | inSecond
    · exact firstOffered transfer inFirst
    · exact secondOffered transfer inSecond

end Offered

section OneReference

theorem allOffered_iff_brought_one_reference :
    ∃ stored data, storeParams referenceMemory fourArrays = some stored ∧
      receiveReply stored fourArrays fourBytesReceived = some data ∧
      (AllOffered stored fourArrays oneReference fourBytesReceived data.paramTypes ↔
        ∀ index < getParamCount oneReference,
          Brought stored data.memory fourArrays oneReference data.paramTypes index) := by
  obtain ⟨stored, data, storing, arrived, _⟩ := prepared_exists supplied_oneReference answers_oneReference
  exact ⟨stored, data, storing, arrived,
    allOffered_iff_brought (waiting_of_stored supplied_oneReference storing) arrived⟩

def eightBytes : List Byte := fourBytes ++ fourBytes

def eightBytesReply : Message := ⟨cmdRequestInit ||| cmdRespond, oneReference, [.memref eightBytes]⟩

def eightBytesReceived : Received :=
  .bytes [1, 1, 0, 0, 6, 0, 0, 0, 8, 0, 0, 0, 1, 2, 3, 4, 1, 2, 3, 4]

/-- Eight bytes are more than the four that the reference has room for. -/
theorem eight_bytes_not_offered :
    ∃ stored data, storeParams referenceMemory fourArrays = some stored ∧
      receiveReply stored fourArrays eightBytesReceived = some data ∧
      ¬ AllOffered stored fourArrays oneReference eightBytesReceived data.paramTypes := by
  obtain ⟨stored, storing, _⟩ :=
    storeParams_copied supplied_oneReference.caller supplied_oneReference.node
  have waiting := waiting_of_stored supplied_oneReference storing
  obtain ⟨content, object, full⟩ := waiting.buff
  have decoded : messageFormat.decode eightBytesReceived.content = some (eightBytesReply, []) := by
    decide
  have whole : eightBytesReceived.content.length ≤ buffMaxNum := by decide
  obtain ⟨data, arrived, types, held, _⟩ :=
    receiveReply_decodes object full waiting.params decoded whole
  refine ⟨stored, data, storing, arrived, fun all => ?_⟩
  have counted : 0 < getParamCount oneReference := by decide
  have memref : isMemref (paramTypeGet oneReference 0) = true := by decide
  obtain ⟨_, given, size, offered, loaded, fits, _⟩ :=
    (brought_of_allOffered waiting arrived all 0 counted).2 (by decide)
  have four : referenceMemory.loadUInt32 (memrefSizeAt fourArrays.caller 0) = some 4 := by decide
  obtain ⟨callerNode, callerBuff, callerParams, _⟩ := fourArrays.apart
  have kept : stored.loadUInt32 (memrefSizeAt fourArrays.caller 0) =
      referenceMemory.loadUInt32 (memrefSizeAt fourArrays.caller 0) :=
    Memory.loadUInt32_congr (Memory.read_congr fun _ _ =>
      (landed_of_stored supplied_oneReference storing).elsewhere _ callerNode callerBuff callerParams)
  cases (kept.trans four).symm.trans offered
  rw [types] at held
  obtain ⟨payload, placed, said⟩ := readMessage_payload held counted
  obtain ⟨word, _, bytes, sized, _, read, rfl⟩ := (readPayload_memref memref).mp said
  cases placed
  cases sized.symm.trans loaded
  have eight : size.toNat = 8 := (Memory.length_of_readThrough read).symm
  rw [eight] at fits
  exact absurd fits (by decide)

end OneReference

end Dwadelib.Ipc.Client
