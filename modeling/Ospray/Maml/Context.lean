import Ospray.Library.Runs
import Ospray.Library.Slots
import Ospray.Library.Vectors

/-!
# The message layer of one rank

`maml::Context` keeps the messages to send in an outbox and the messages to
deliver in an inbox. One thread moves messages from the outbox to MPI, probes for
incoming ones and collects completed requests; another one takes messages out of
the inbox and hands them to their handlers; any thread may send. A state holds
what each of the two threads has in hand in the middle of its call.

Requests in progress stand in two pairs of vectors, the messages in the one and
the requests in the other. Completed entries are first overwritten by null and
then removed, from each of the four vectors on its own.

MPI transports what another rank's context has put on the wire. The identity of a
message, and the record of what was sent and received, are there only to follow
messages through the layer.
-/

namespace Ospray.Maml

open Library.Runs
open Library.Slots
open Library.Vectors

/-- `mpicommon::Message`. The rank is the destination of a message to send and the
source of a received one. -/
structure Message (Comm : Type) where
  id : Nat
  comm : Comm
  rank : Int
  tag : Int
  data : List UInt8
  deriving DecidableEq

/-- The snappy library. Lengths are stored in 32 bits. -/
structure Snappy where
  rawCompress : List UInt8 → List UInt8
  rawUncompress : List UInt8 → List UInt8
  roundTrip : ∀ data, data.length < 2 ^ 32 → rawUncompress (rawCompress data) = data

/-- A codec that stores its data; it stands for snappy where nothing is compressed. -/
def Snappy.stored : Snappy :=
  { rawCompress := id, rawUncompress := id, roundTrip := fun _ _ => rfl }

/-- An MPI request, which stands for the transfer of one message. -/
structure Request where
  message : Nat
  deriving DecidableEq

/-- Which of its functions the thread for MPI calls is in, with the communicators
still to probe or the completed indices still to be dealt with. -/
inductive Stage (Comm : Type) where
  | idle
  | sending
  | polling (rest : List Comm)
  | waiting (done : List Nat)

/-- `maml::Context`, what its threads have in hand, and the record of messages. A
null pointer in a cache and a null request are `none`. -/
structure Context (Comm : Type) where
  compressMessages : Bool
  handlers : List Comm
  inbox : List (Message Comm) := []
  outbox : List (Message Comm) := []
  sendCache : List (Option (Message Comm)) := []
  pendingSends : List (Option Request) := []
  recvCache : List (Option (Message Comm)) := []
  pendingRecvs : List (Option Request) := []
  stage : Stage Comm := .idle
  /-- The local vector of `sendMessagesFromOutbox`. -/
  outgoingMessages : List (Message Comm) := []
  /-- The local vector of `processInboxMessages`. -/
  incomingMessages : List (Message Comm) := []
  /-- The messages handed to `send`, as they were. -/
  handed : List (Message Comm) := []
  /-- The messages received from other ranks, as they were handed to `send` there. -/
  received : List (Message Comm) := []
  /-- The messages whose sending is complete. -/
  sent : List (Message Comm) := []
  /-- The messages handlers were called with. -/
  delivered : List (Message Comm) := []

namespace Context

variable {Comm : Type}

/-- What `send` does to the data of a message. -/
def pack (snappy : Snappy) (self : Context Comm) (data : List UInt8) : List UInt8 :=
  if self.compressMessages then snappy.rawCompress data else data

/-- What `processInboxMessages` does to the data of a message. -/
def unpack (snappy : Snappy) (self : Context Comm) (data : List UInt8) : List UInt8 :=
  if self.compressMessages then snappy.rawUncompress data else data

/-- What `Isend` transports: the size is passed as an `int`, and a negative count is
an error. -/
def onWire (data : List UInt8) : Option (List UInt8) :=
  let count := (data.length : Int).bmod (2 ^ 32)
  if count < 0 then none else some (data.take count.toNat)

/-- `Context::send`. -/
def send (snappy : Snappy) (self : Context Comm) (msg : Message Comm) : Context Comm :=
  { self with
    outbox := self.outbox ++ [{ msg with data := self.pack snappy msg.data }]
    handed := self.handed ++ [msg] }

/-- `sendMessagesFromOutbox` takes all messages out of the outbox. -/
def sendMessagesFromOutbox (self : Context Comm) : Context Comm :=
  { self with stage := .sending, outgoingMessages := self.outbox, outbox := [] }

/-- One iteration of its loop. A message to the own rank goes to the inbox. -/
def sendNext (commRank : Comm → Int) (self : Context Comm) (msg : Message Comm)
    (rest : List (Message Comm)) : Option (Context Comm) :=
  if commRank msg.comm = msg.rank then
    some { self with outgoingMessages := rest, inbox := self.inbox ++ [msg] }
  else (onWire msg.data).map fun _ =>
    { self with
      outgoingMessages := rest
      pendingSends := self.pendingSends ++ [some ⟨msg.id⟩]
      sendCache := self.sendCache ++ [some msg] }

/-- One iteration of `pollForAndRecieveMessages` that finds something incoming: a
message `original` that the context of rank `source` has sent. -/
def receiveNext (snappy : Snappy) (self : Context Comm) (rest : List Comm) (source : Int)
    (original : Message Comm) : Option (Context Comm) :=
  (onWire (self.pack snappy original.data)).map fun data =>
    { self with
      stage := .polling rest
      pendingRecvs := self.pendingRecvs ++ [some ⟨original.id⟩]
      recvCache := self.recvCache ++
        [some { original with rank := source, data }]
      received := self.received ++ [original] }

/-- `mergedRequests` in `waitOnSomeRequests`. -/
def mergedRequests (self : Context Comm) : List (Option Request) :=
  self.pendingSends ++ self.pendingRecvs

/-- One iteration over the completed requests. -/
def completeNext (self : Context Comm) (msgId : Nat) (rest : List Nat) : Option (Context Comm) :=
  if msgId < self.pendingSends.length then
    (occupant self.sendCache msgId).map fun msg =>
      { self with
        stage := .waiting rest
        pendingSends := self.pendingSends.set msgId none
        sendCache := self.sendCache.set msgId none
        sent := self.sent ++ [msg] }
  else
    (occupant self.recvCache (msgId - self.pendingSends.length)).map fun msg =>
      { self with
        stage := .waiting rest
        inbox := self.inbox ++ [msg]
        pendingRecvs := self.pendingRecvs.set (msgId - self.pendingSends.length) none
        recvCache := self.recvCache.set (msgId - self.pendingSends.length) none }

/-- The end of `waitOnSomeRequests`: all that is null is removed. -/
def cleanUp [DecidableEq Comm] (self : Context Comm) : Context Comm :=
  { self with
    stage := .idle
    sendCache := removeErase self.sendCache none
    pendingSends := removeErase self.pendingSends none
    recvCache := removeErase self.recvCache none
    pendingRecvs := removeErase self.pendingRecvs none }

/-- `processInboxMessages` takes all messages out of the inbox. -/
def processInboxMessages (self : Context Comm) : Context Comm :=
  { self with incomingMessages := self.inbox, inbox := [] }

/-- One iteration of its loop: the handler is called with the unpacked message. A
communicator without a handler ends the program. -/
def deliverNext [DecidableEq Comm] (snappy : Snappy) (self : Context Comm) (msg : Message Comm)
    (rest : List (Message Comm)) : Option (Context Comm) :=
  if msg.comm ∈ self.handlers then
    some { self with
      incomingMessages := rest
      delivered := self.delivered ++ [{ msg with data := self.unpack snappy msg.data }] }
  else none

/-- A new message is one that this rank has neither sent nor received. -/
def Fresh (self : Context Comm) (msg : Message Comm) : Prop :=
  (∀ other ∈ self.handed, other.id ≠ msg.id) ∧ ∀ other ∈ self.received, other.id ≠ msg.id

/-- What `Testsome` reports: different indices of requests that are not null. -/
def Completable (self : Context Comm) (done : List Nat) : Prop :=
  done.Nodup ∧ ∀ index ∈ done, ∃ request, occupant self.mergedRequests index = some request

/-- The steps of one rank. The thread for MPI calls is in one of its three functions
or in none, the thread for the inbox is in its function while it has messages in
hand, and any thread may send. -/
inductive Step [DecidableEq Comm] (snappy : Snappy) (commRank : Comm → Int) :
    Context Comm → Context Comm → Prop where
  | send (self : Context Comm) (msg : Message Comm) (fresh : self.Fresh msg) :
      Step snappy commRank self (self.send snappy msg)
  | sendMessages (self : Context Comm) (idle : self.stage = .idle) :
      Step snappy commRank self self.sendMessagesFromOutbox
  | sendNext (self next : Context Comm) (msg : Message Comm) (rest : List (Message Comm))
      (sending : self.stage = .sending) (first : self.outgoingMessages = msg :: rest)
      (moved : self.sendNext commRank msg rest = some next) :
      Step snappy commRank self next
  | sendEnd (self : Context Comm) (sending : self.stage = .sending)
      (empty : self.outgoingMessages = []) :
      Step snappy commRank self { self with stage := .idle }
  | poll (self : Context Comm) (idle : self.stage = .idle) :
      Step snappy commRank self { self with stage := .polling self.handlers }
  | pollNothing (self : Context Comm) (comm : Comm) (rest : List Comm)
      (polling : self.stage = .polling (comm :: rest)) :
      Step snappy commRank self { self with stage := .polling rest }
  | receiveNext (self next : Context Comm) (original : Message Comm) (source : Int)
      (rest : List Comm) (polling : self.stage = .polling (original.comm :: rest))
      (fresh : self.Fresh original)
      (moved : self.receiveNext snappy rest source original = some next) :
      Step snappy commRank self next
  | pollEnd (self : Context Comm) (polling : self.stage = .polling []) :
      Step snappy commRank self { self with stage := .idle }
  | testSome (self : Context Comm) (done : List Nat) (idle : self.stage = .idle)
      (pending : self.pendingSends ≠ [] ∨ self.pendingRecvs ≠ [])
      (completed : self.Completable done) :
      Step snappy commRank self { self with stage := .waiting done }
  | completeNext (self next : Context Comm) (msgId : Nat) (rest : List Nat)
      (waiting : self.stage = .waiting (msgId :: rest))
      (moved : self.completeNext msgId rest = some next) :
      Step snappy commRank self next
  | cleanUp (self : Context Comm) (waiting : self.stage = .waiting []) :
      Step snappy commRank self self.cleanUp
  | processInbox (self : Context Comm) (idle : self.incomingMessages = []) :
      Step snappy commRank self self.processInboxMessages
  | deliverNext (self next : Context Comm) (msg : Message Comm) (rest : List (Message Comm))
      (first : self.incomingMessages = msg :: rest)
      (moved : self.deliverNext snappy msg rest = some next) :
      Step snappy commRank self next

/-! ## Where a message is -/

/-- How often a message occurs among some messages. -/
def occurs (id : Nat) (messages : List (Message Comm)) : Nat :=
  messages.countP fun msg => msg.id = id

/-- How often a message occurs in a cache. -/
def inCache (id : Nat) (cache : List (Option (Message Comm))) : Nat :=
  total (fun msg => if msg.id = id then 1 else 0) cache

/-- How often a message is in the outbox, a cache or the inbox, or has been sent or
delivered. -/
def placed (self : Context Comm) (id : Nat) : Nat :=
  occurs id self.outbox + inCache id self.sendCache + inCache id self.recvCache +
    occurs id self.inbox + (occurs id self.sent + occurs id self.delivered)

/-- How often one of the two threads has a message in hand. -/
def inHand (self : Context Comm) (id : Nat) : Nat :=
  occurs id self.outgoingMessages + occurs id self.incomingMessages

/-- How often a message was handed to this rank, by its threads or by MPI. -/
def recorded (self : Context Comm) (id : Nat) : Nat :=
  occurs id self.handed + occurs id self.received

/-- The request at each index stands for the message at that index; both are null or
none is. -/
def Corresponding (cache : List (Option (Message Comm))) (pending : List (Option Request)) :
    Prop :=
  pending = cache.map (Option.map fun msg => ⟨msg.id⟩)

/-- A packed message comes from one that was handed to `send`, here or, if MPI has
transported it, on another rank. -/
def Origin (snappy : Snappy) (self : Context Comm) (id : Nat) (comm : Comm) (tag : Int)
    (data : List UInt8) : Prop :=
  (∃ original ∈ self.handed, original.id = id ∧ original.comm = comm ∧ original.tag = tag ∧
    data = self.pack snappy original.data) ∨
  ∃ original ∈ self.received, original.id = id ∧ original.comm = comm ∧ original.tag = tag ∧
    onWire (self.pack snappy original.data) = some data

/-- What holds between any two steps. -/
structure Sound (snappy : Snappy) (context : Context Comm) : Prop where
  sends : Corresponding context.sendCache context.pendingSends
  recvs : Corresponding context.recvCache context.pendingRecvs
  occupied : (∀ done, context.stage ≠ .waiting done) →
    none ∉ context.sendCache ∧ none ∉ context.recvCache
  completing : ∀ done, context.stage = .waiting done → context.Completable done
  handsFree : context.stage ≠ .sending → context.outgoingMessages = []
  accounted : ∀ id, context.placed id + context.inHand id = context.recorded id
  distinct : ∀ id, context.recorded id ≤ 1
  moving : ∀ msg, msg ∈ context.outbox ∨ msg ∈ context.inbox ∨ msg ∈ context.outgoingMessages ∨
      msg ∈ context.incomingMessages ∨ some msg ∈ context.recvCache →
    context.Origin snappy msg.id msg.comm msg.tag msg.data
  arrived : ∀ msg ∈ context.delivered, ∃ data,
    context.Origin snappy msg.id msg.comm msg.tag data ∧ msg.data = context.unpack snappy data

/-! ## Counting -/

@[simp] theorem occurs_append (id : Nat) (first second : List (Message Comm)) :
    occurs id (first ++ second) = occurs id first + occurs id second :=
  List.countP_append

@[simp] theorem occurs_nil (id : Nat) : occurs id ([] : List (Message Comm)) = 0 := rfl

@[simp] theorem occurs_cons (id : Nat) (msg : Message Comm) (rest : List (Message Comm)) :
    occurs id (msg :: rest) = occurs id rest + if msg.id = id then 1 else 0 := by
  rw [occurs, List.countP_cons, ← occurs]
  simp

@[simp] theorem inCache_append (id : Nat) (cache : List (Option (Message Comm)))
    (msg : Message Comm) :
    inCache id (cache ++ [some msg]) = inCache id cache + if msg.id = id then 1 else 0 :=
  total_append _ cache (some msg)

theorem inCache_take (id : Nat) {cache : List (Option (Message Comm))} {index : Nat}
    {msg : Message Comm} (found : occupant cache index = some msg) :
    inCache id (cache.set index none) + (if msg.id = id then 1 else 0) = inCache id cache :=
  total_set _ found none

@[simp] theorem inCache_removeErase [DecidableEq Comm] (id : Nat) (cache : List (Option (Message Comm))) :
    inCache id (removeErase cache none) = inCache id cache := by
  rw [removeErase_eq]
  apply total_filter
  intro slot _ dropped
  simpa using dropped

theorem occurs_eq_zero {id : Nat} {messages : List (Message Comm)}
    (absent : ∀ other ∈ messages, other.id ≠ id) : occurs id messages = 0 := by
  apply List.countP_eq_zero.mpr
  intro other member
  simpa using absent other member

theorem Fresh.recorded_eq {self : Context Comm} {msg : Message Comm} (fresh : self.Fresh msg) :
    self.recorded msg.id = 0 := by
  rw [recorded, occurs_eq_zero fresh.1, occurs_eq_zero fresh.2]

/-! ## Correspondence -/

theorem Corresponding.append {cache : List (Option (Message Comm))}
    {pending : List (Option Request)} (corresponds : Corresponding cache pending)
    (msg : Message Comm) :
    Corresponding (cache ++ [some msg]) (pending ++ [some ⟨msg.id⟩]) := by
  rw [Corresponding] at *
  simp [corresponds]

theorem Corresponding.clear {cache : List (Option (Message Comm))}
    {pending : List (Option Request)} (corresponds : Corresponding cache pending) (index : Nat) :
    Corresponding (cache.set index none) (pending.set index none) := by
  rw [Corresponding] at *
  rw [corresponds, List.map_set, Option.map_none]

/-- The four vectors are cleaned up on their own, but null stands at the same
indices, so requests and messages still correspond. -/
theorem Corresponding.cleanUp [DecidableEq Comm] {cache : List (Option (Message Comm))}
    {pending : List (Option Request)} (corresponds : Corresponding cache pending) :
    Corresponding (removeErase cache none) (removeErase pending none) := by
  rw [Corresponding] at *
  rw [removeErase_eq, removeErase_eq, corresponds, others, others, List.filter_map]
  congr 1
  apply List.filter_congr
  intro slot _
  cases slot <;> simp

theorem Corresponding.found {cache : List (Option (Message Comm))}
    {pending : List (Option Request)} (corresponds : Corresponding cache pending) {index : Nat}
    {request : Request} (active : occupant pending index = some request) :
    ∃ msg, occupant cache index = some msg := by
  rw [Corresponding] at corresponds
  rw [corresponds, occupant, List.getD_eq_getElem?_getD, List.getElem?_map] at active
  cases stored : cache[index]? with
  | none => simp [stored] at active
  | some slot =>
    cases slot with
    | none => simp [stored] at active
    | some msg => exact ⟨msg, by rw [occupant, List.getD_eq_getElem?_getD, stored, Option.getD_some]⟩

/-! ## What each step keeps -/

theorem Origin.mono {snappy : Snappy} {self next : Context Comm} {id : Nat} {comm : Comm}
    {tag : Int} {data : List UInt8} (origin : self.Origin snappy id comm tag data)
    (mode : next.compressMessages = self.compressMessages)
    (handed : self.handed ⊆ next.handed) (received : self.received ⊆ next.received) :
    next.Origin snappy id comm tag data := by
  have packs : next.pack snappy = self.pack snappy := by
    funext bytes
    rw [pack, pack, mode]
  rcases origin with ⟨original, member, same⟩ | ⟨original, member, same⟩
  · exact Or.inl ⟨original, handed member, packs ▸ same⟩
  · exact Or.inr ⟨original, received member, packs ▸ same⟩

/-- The thread for MPI calls enters or leaves a function, except for the one that
deals with completed requests. -/
theorem Sound.restage {snappy : Snappy} {self : Context Comm} (sound : self.Sound snappy)
    (stage : Stage Comm) (before : ∀ done, self.stage ≠ .waiting done)
    (after : ∀ done, stage ≠ .waiting done)
    (free : stage ≠ .sending → self.outgoingMessages = []) :
    Sound snappy { self with stage } := by
  constructor
  · exact sound.sends
  · exact sound.recvs
  · exact fun _ => sound.occupied before
  · exact fun done waiting => absurd waiting (after done)
  · exact free
  · exact sound.accounted
  · exact sound.distinct
  · exact sound.moving
  · exact sound.arrived

/-- `send` puts a new message into the outbox. -/
theorem Sound.send {snappy : Snappy} {self : Context Comm} (sound : self.Sound snappy)
    {msg : Message Comm} (fresh : self.Fresh msg) : Sound snappy (self.send snappy msg) := by
  have grows : self.handed ⊆ self.handed ++ [msg] := List.subset_append_left _ _
  constructor
  · exact sound.sends
  · exact sound.recvs
  · exact sound.occupied
  · exact sound.completing
  · exact sound.handsFree
  · intro id
    have before := sound.accounted id
    simp only [Context.send, placed, inHand, recorded, occurs_append, occurs_cons,
      occurs_nil] at *
    omega
  · intro id
    have before := sound.distinct id
    have unrecorded := fresh.recorded_eq
    by_cases same : msg.id = id
    · subst same
      simp only [Context.send, recorded, occurs_append, occurs_cons, occurs_nil, if_true] at *
      omega
    · simp only [Context.send, recorded, occurs_append, occurs_cons, occurs_nil, if_neg same] at *
      omega
  · intro other place
    simp only [Context.send, List.mem_append, List.mem_singleton] at place
    rcases place with (old | rfl) | rest
    · exact (sound.moving other (Or.inl old)).mono rfl grows (List.Subset.refl _)
    · exact Or.inl ⟨msg, List.mem_append_right _ (List.mem_singleton_self msg), rfl, rfl, rfl, rfl⟩
    · exact (sound.moving other (Or.inr rest)).mono rfl grows (List.Subset.refl _)
  · intro other delivered
    obtain ⟨data, origin, same⟩ := sound.arrived other delivered
    exact ⟨data, origin.mono rfl grows (List.Subset.refl _), same⟩

/-- `sendMessagesFromOutbox` takes the messages of the outbox in hand. -/
theorem Sound.sendMessagesFromOutbox {snappy : Snappy} {self : Context Comm}
    (sound : self.Sound snappy) (idle : self.stage = .idle) :
    Sound snappy self.sendMessagesFromOutbox := by
  have free : self.outgoingMessages = [] := by
    apply sound.handsFree
    rw [idle]
    rintro ⟨⟩
  constructor
  · exact sound.sends
  · exact sound.recvs
  · intro _
    apply sound.occupied
    rw [idle]
    rintro done ⟨⟩
  · rintro done ⟨⟩
  · exact fun sending => absurd rfl sending
  · intro id
    have before := sound.accounted id
    simp only [Context.sendMessagesFromOutbox, placed, inHand, recorded, free, occurs_nil] at *
    omega
  · exact sound.distinct
  · intro msg place
    apply sound.moving msg
    simp only [Context.sendMessagesFromOutbox, List.not_mem_nil, false_or] at place
    tauto
  · exact sound.arrived

/-- One message in hand goes to the inbox, or to MPI and into the send cache. -/
theorem Sound.sendNext {snappy : Snappy} {commRank : Comm → Int} {self next : Context Comm}
    (sound : self.Sound snappy) {msg : Message Comm} {rest : List (Message Comm)}
    (sending : self.stage = .sending) (first : self.outgoingMessages = msg :: rest)
    (moved : self.sendNext commRank msg rest = some next) : Sound snappy next := by
  have notWaiting : ∀ done, self.stage ≠ .waiting done := by
    rw [sending]
    rintro done ⟨⟩
  rw [Context.sendNext] at moved
  split at moved
  · obtain rfl := Option.some.inj moved
    constructor
    · exact sound.sends
    · exact sound.recvs
    · exact sound.occupied
    · exact sound.completing
    · exact fun other => absurd sending other
    · intro id
      have before := sound.accounted id
      simp only [placed, inHand, recorded, first, occurs_append, occurs_cons, occurs_nil] at *
      omega
    · exact sound.distinct
    · intro other place
      apply sound.moving other
      simp only [first, List.mem_append, List.mem_cons, List.not_mem_nil, or_false] at *
      tauto
    · exact sound.arrived
  · obtain ⟨data, -, rfl⟩ := Option.map_eq_some_iff.mp moved
    obtain ⟨sendsFull, recvsFull⟩ := sound.occupied notWaiting
    constructor
    · exact sound.sends.append msg
    · exact sound.recvs
    · intro _
      refine ⟨?_, recvsFull⟩
      simpa using sendsFull
    · exact fun done waiting => absurd waiting (notWaiting done)
    · exact fun other => absurd sending other
    · intro id
      have before := sound.accounted id
      simp only [placed, inHand, recorded, first, occurs_cons, inCache_append] at *
      omega
    · exact sound.distinct
    · intro other place
      apply sound.moving other
      rcases place with outbox | inbox | outgoing | others
      · exact Or.inl outbox
      · exact Or.inr (Or.inl inbox)
      · exact Or.inr (Or.inr (Or.inl (first ▸ List.mem_cons_of_mem _ outgoing)))
      · exact Or.inr (Or.inr (Or.inr others))
    · exact sound.arrived

/-- A message that MPI has transported is put into the receive cache. -/
theorem Sound.receiveNext {snappy : Snappy} {self next : Context Comm}
    (sound : self.Sound snappy) {rest : List Comm} {source : Int} {original : Message Comm}
    (polling : self.stage = .polling (original.comm :: rest)) (fresh : self.Fresh original)
    (moved : self.receiveNext snappy rest source original = some next) : Sound snappy next := by
  have notWaiting : ∀ done, self.stage ≠ .waiting done := by
    rw [polling]
    rintro done ⟨⟩
  have free : self.outgoingMessages = [] := by
    apply sound.handsFree
    rw [polling]
    rintro ⟨⟩
  obtain ⟨data, transported, rfl⟩ := Option.map_eq_some_iff.mp moved
  obtain ⟨sendsFull, recvsFull⟩ := sound.occupied notWaiting
  have grows : self.received ⊆ self.received ++ [original] := List.subset_append_left _ _
  constructor
  · exact sound.sends
  · exact sound.recvs.append { original with rank := source, data }
  · intro _
    refine ⟨sendsFull, ?_⟩
    simpa using recvsFull
  · rintro done ⟨⟩
  · exact fun _ => free
  · intro id
    have before := sound.accounted id
    simp only [placed, inHand, recorded, occurs_append, occurs_cons, occurs_nil,
      inCache_append] at *
    omega
  · intro id
    have before := sound.distinct id
    have unrecorded := fresh.recorded_eq
    by_cases same : original.id = id
    · subst same
      simp only [recorded, occurs_append, occurs_cons, occurs_nil, if_true] at *
      omega
    · simp only [recorded, occurs_append, occurs_cons, occurs_nil, if_neg same] at *
      omega
  · intro other place
    simp only [List.mem_append, List.mem_singleton, Option.some.injEq] at place
    rcases place with a | a | a | a | a | rfl
    · exact (sound.moving other (Or.inl a)).mono rfl (List.Subset.refl _) grows
    · exact (sound.moving other (Or.inr (Or.inl a))).mono rfl (List.Subset.refl _) grows
    · exact (sound.moving other (Or.inr (Or.inr (Or.inl a)))).mono rfl (List.Subset.refl _) grows
    · exact (sound.moving other (Or.inr (Or.inr (Or.inr (Or.inl a))))).mono rfl
        (List.Subset.refl _) grows
    · exact (sound.moving other (Or.inr (Or.inr (Or.inr (Or.inr a))))).mono rfl
        (List.Subset.refl _) grows
    · refine Or.inr ⟨original, List.mem_append_right _ (List.mem_singleton_self original), rfl, rfl,
        rfl, ?_⟩
      rw [pack] at transported ⊢
      exact transported
  · intro other delivered
    obtain ⟨packed, origin, same⟩ := sound.arrived other delivered
    exact ⟨packed, origin.mono rfl (List.Subset.refl _) grows, same⟩

theorem set_mergedRequests (first second : List (Option Request)) (index : Nat) :
    (first ++ second).set index none =
      if index < first.length then first.set index none ++ second
      else first ++ second.set (index - first.length) none := by
  by_cases inside : index < first.length
  · rw [if_pos inside, List.set_append_left _ _ inside]
  · rw [if_neg inside, List.set_append_right _ _ (Nat.le_of_not_lt inside)]

/-- After one completed request is overwritten, the others can still be completed. -/
theorem Completable.tail {self next : Context Comm} {msgId : Nat} {rest : List Nat}
    (completable : self.Completable (msgId :: rest))
    (cleared : next.mergedRequests = self.mergedRequests.set msgId none) :
    next.Completable rest := by
  obtain ⟨distinct, active⟩ := completable
  obtain ⟨apart, restDistinct⟩ := List.nodup_cons.mp distinct
  obtain ⟨request, stands⟩ := active msgId List.mem_cons_self
  refine ⟨restDistinct, ?_⟩
  intro index member
  obtain ⟨other, found⟩ := active index (List.mem_cons_of_mem _ member)
  have different : index ≠ msgId := by
    rintro rfl
    exact apart member
  refine ⟨other, ?_⟩
  rw [cleared, occupant_set stands, if_neg different, found]

/-- A completed request finds its message: a sent one is dropped, a received one
goes to the inbox. -/
theorem Sound.completeNext {snappy : Snappy} {self next : Context Comm}
    (sound : self.Sound snappy) {msgId : Nat} {rest : List Nat}
    (waiting : self.stage = .waiting (msgId :: rest))
    (moved : self.completeNext msgId rest = some next) : Sound snappy next := by
  have completable := sound.completing _ waiting
  have free : self.outgoingMessages = [] := by
    apply sound.handsFree
    rw [waiting]
    rintro ⟨⟩
  have merged := set_mergedRequests self.pendingSends self.pendingRecvs msgId
  rw [Context.completeNext] at moved
  split at moved
  · rename_i inside
    rw [if_pos inside] at merged
    obtain ⟨msg, found, rfl⟩ := Option.map_eq_some_iff.mp moved
    constructor
    · exact sound.sends.clear msgId
    · exact sound.recvs
    · exact fun notWaiting => absurd rfl (notWaiting rest)
    · rintro done ⟨⟩
      exact completable.tail merged.symm
    · exact fun _ => free
    · intro id
      have before := sound.accounted id
      have taken := inCache_take id found
      simp only [placed, inHand, recorded, occurs_append, occurs_cons, occurs_nil] at *
      omega
    · exact sound.distinct
    · exact sound.moving
    · exact sound.arrived
  · rename_i outside
    rw [if_neg outside] at merged
    obtain ⟨msg, found, rfl⟩ := Option.map_eq_some_iff.mp moved
    have cached : some msg ∈ self.recvCache := by
      have inside := occupant_lt found
      rw [occupant, List.getD_eq_getElem _ _ inside] at found
      exact found ▸ List.getElem_mem inside
    constructor
    · exact sound.sends
    · exact sound.recvs.clear (msgId - self.pendingSends.length)
    · exact fun notWaiting => absurd rfl (notWaiting rest)
    · rintro done ⟨⟩
      exact completable.tail merged.symm
    · exact fun _ => free
    · intro id
      have before := sound.accounted id
      have taken := inCache_take id found
      simp only [placed, inHand, recorded, occurs_append, occurs_cons, occurs_nil] at *
      omega
    · exact sound.distinct
    · intro other place
      apply sound.moving other
      simp only [List.mem_append, List.mem_singleton] at place
      rcases place with outbox | (inbox | rfl) | outgoing | incoming | stored
      · exact Or.inl outbox
      · exact Or.inr (Or.inl inbox)
      · exact Or.inr (Or.inr (Or.inr (Or.inr cached)))
      · exact Or.inr (Or.inr (Or.inl outgoing))
      · exact Or.inr (Or.inr (Or.inr (Or.inl incoming)))
      · rcases List.mem_or_eq_of_mem_set stored with old | null
        · exact Or.inr (Or.inr (Or.inr (Or.inr old)))
        · cases null
    · exact sound.arrived

section Removal

variable [DecidableEq Comm]

theorem none_not_mem_removeErase (cache : List (Option (Message Comm))) :
    none ∉ removeErase cache none := by
  rw [removeErase_eq, others, List.mem_filter]
  simp

theorem mem_of_mem_removeErase {cache : List (Option (Message Comm))}
    {slot : Option (Message Comm)} (left : slot ∈ removeErase cache none) : slot ∈ cache := by
  rw [removeErase_eq, others] at left
  exact List.mem_of_mem_filter left

/-- The end of `waitOnSomeRequests` removes what is null and nothing else. -/
theorem Sound.cleanUp {snappy : Snappy} {self : Context Comm} (sound : self.Sound snappy)
    (waiting : self.stage = .waiting []) : Sound snappy self.cleanUp := by
  have free : self.outgoingMessages = [] := by
    apply sound.handsFree
    rw [waiting]
    rintro ⟨⟩
  constructor
  · exact sound.sends.cleanUp
  · exact sound.recvs.cleanUp
  · exact fun _ => ⟨none_not_mem_removeErase _, none_not_mem_removeErase _⟩
  · rintro done ⟨⟩
  · exact fun _ => free
  · intro id
    have before := sound.accounted id
    simp only [Context.cleanUp, placed, inHand, recorded, inCache_removeErase] at *
    exact before
  · exact sound.distinct
  · intro msg place
    apply sound.moving msg
    rcases place with outbox | inbox | outgoing | incoming | cached
    · exact Or.inl outbox
    · exact Or.inr (Or.inl inbox)
    · exact Or.inr (Or.inr (Or.inl outgoing))
    · exact Or.inr (Or.inr (Or.inr (Or.inl incoming)))
    · exact Or.inr (Or.inr (Or.inr (Or.inr (mem_of_mem_removeErase cached))))
  · exact sound.arrived

/-- A message in hand is unpacked and handed to its handler. -/
theorem Sound.deliverNext {snappy : Snappy} {self next : Context Comm}
    (sound : self.Sound snappy) {msg : Message Comm} {rest : List (Message Comm)}
    (first : self.incomingMessages = msg :: rest)
    (moved : self.deliverNext snappy msg rest = some next) : Sound snappy next := by
  rw [Context.deliverNext] at moved
  split at moved
  · obtain rfl := Option.some.inj moved
    constructor
    · exact sound.sends
    · exact sound.recvs
    · exact sound.occupied
    · exact sound.completing
    · exact sound.handsFree
    · intro id
      have before := sound.accounted id
      simp only [placed, inHand, recorded, first, occurs_append, occurs_cons, occurs_nil] at *
      omega
    · exact sound.distinct
    · intro other place
      apply sound.moving other
      rcases place with outbox | inbox | outgoing | incoming | cached
      · exact Or.inl outbox
      · exact Or.inr (Or.inl inbox)
      · exact Or.inr (Or.inr (Or.inl outgoing))
      · exact Or.inr (Or.inr (Or.inr (Or.inl (first ▸ List.mem_cons_of_mem _ incoming))))
      · exact Or.inr (Or.inr (Or.inr (Or.inr cached)))
    · intro other delivered
      rcases List.mem_append.mp delivered with old | new
      · exact sound.arrived other old
      · rw [List.mem_singleton.mp new]
        refine ⟨msg.data, ?_, rfl⟩
        apply sound.moving msg
        exact Or.inr (Or.inr (Or.inr (Or.inl (first ▸ List.mem_cons_self))))
  · cases moved

end Removal

/-- `processInboxMessages` takes the messages of the inbox in hand. -/
theorem Sound.processInboxMessages {snappy : Snappy} {self : Context Comm}
    (sound : self.Sound snappy) (idle : self.incomingMessages = []) :
    Sound snappy self.processInboxMessages := by
  constructor
  · exact sound.sends
  · exact sound.recvs
  · exact sound.occupied
  · exact sound.completing
  · exact sound.handsFree
  · intro id
    have before := sound.accounted id
    simp only [Context.processInboxMessages, placed, inHand, recorded, idle, occurs_nil] at *
    omega
  · exact sound.distinct
  · intro msg place
    apply sound.moving msg
    rcases place with outbox | inbox | outgoing | incoming | cached
    · exact Or.inl outbox
    · cases inbox
    · exact Or.inr (Or.inr (Or.inl outgoing))
    · exact Or.inr (Or.inl incoming)
    · exact Or.inr (Or.inr (Or.inr (Or.inr cached)))
  · exact sound.arrived

/-! ## Every run -/

theorem unpack_pack (snappy : Snappy) (self : Context Comm) {data : List UInt8}
    (storable : self.compressMessages = true → data.length < 2 ^ 32) :
    self.unpack snappy (self.pack snappy data) = data := by
  rw [pack, unpack]
  by_cases compress : self.compressMessages = true
  · rw [if_pos compress, if_pos compress]
    exact snappy.roundTrip data (storable compress)
  · rw [if_neg compress, if_neg compress]

theorem onWire_of_lt {data : List UInt8} (small : data.length < 2 ^ 31) :
    onWire data = some data := by
  have count : (data.length : Int).bmod (2 ^ 32) = data.length := by
    rw [Int.bmod_def]
    omega
  have natural : ¬ (data.length : Int) < 0 := by omega
  unfold onWire
  rw [count]
  simp only [natural, if_false, Int.toNat_natCast, List.take_length]

/-- What the message layer of a rank promises. The vectors of each pair correspond;
every message sent or received is in exactly one place, and between the calls of
the two threads in one of the five; and handlers get the data that was sent, if
its length can be stored and transported. -/
structure Conserved (snappy : Snappy) (context : Context Comm) : Prop where
  sends : Corresponding context.sendCache context.pendingSends
  recvs : Corresponding context.recvCache context.pendingRecvs
  once : ∀ msg, msg ∈ context.handed ∨ msg ∈ context.received →
    context.placed msg.id + context.inHand msg.id = 1
  atRest : context.stage = .idle → context.incomingMessages = [] → ∀ id, context.inHand id = 0
  completes : ∀ msgId rest, context.stage = .waiting (msgId :: rest) →
    ∃ next, context.completeNext msgId rest = some next
  delivered : ∀ msg ∈ context.delivered,
    (∃ original ∈ context.handed,
      original.id = msg.id ∧ original.comm = msg.comm ∧ original.tag = msg.tag ∧
        ((context.compressMessages = true → original.data.length < 2 ^ 32) →
          msg.data = original.data)) ∨
    ∃ original ∈ context.received,
      original.id = msg.id ∧ original.comm = msg.comm ∧ original.tag = msg.tag ∧
        ((context.compressMessages = true → original.data.length < 2 ^ 32) →
          (context.pack snappy original.data).length < 2 ^ 31 → msg.data = original.data)

theorem occurs_pos {messages : List (Message Comm)} {msg : Message Comm}
    (member : msg ∈ messages) : 0 < occurs msg.id messages := by
  apply List.countP_pos_iff.mpr
  exact ⟨msg, member, by simp⟩

/-- A sound state keeps the promises. -/
theorem Sound.conserved {snappy : Snappy} {self : Context Comm} (sound : self.Sound snappy) :
    self.Conserved snappy := by
  constructor
  · exact sound.sends
  · exact sound.recvs
  · intro msg known
    have counted := sound.accounted msg.id
    have single := sound.distinct msg.id
    have positive : 0 < self.recorded msg.id := by
      rcases known with handed | received
      · exact Nat.add_pos_left (occurs_pos handed) _
      · exact Nat.add_pos_right _ (occurs_pos received)
    omega
  · intro idle nothing id
    have free : self.outgoingMessages = [] := by
      apply sound.handsFree
      rw [idle]
      rintro ⟨⟩
    rw [inHand, free, nothing]
    rfl
  · intro msgId rest waiting
    obtain ⟨-, active⟩ := sound.completing _ waiting
    obtain ⟨request, stands⟩ := active msgId List.mem_cons_self
    rw [Context.completeNext]
    rw [mergedRequests, occupant, List.getD_eq_getElem?_getD, List.getElem?_append] at stands
    by_cases inside : msgId < self.pendingSends.length
    · rw [if_pos inside]
      rw [if_pos inside, ← List.getD_eq_getElem?_getD] at stands
      obtain ⟨msg, found⟩ := sound.sends.found stands
      rw [found, Option.map_some]
      exact ⟨_, rfl⟩
    · rw [if_neg inside]
      rw [if_neg inside, ← List.getD_eq_getElem?_getD] at stands
      obtain ⟨msg, found⟩ := sound.recvs.found stands
      rw [found, Option.map_some]
      exact ⟨_, rfl⟩
  · intro msg handled
    obtain ⟨data, origin, unpacked⟩ := sound.arrived msg handled
    rcases origin with ⟨original, member, id, comm, tag, packed⟩ |
      ⟨original, member, id, comm, tag, transported⟩
    · refine Or.inl ⟨original, member, id, comm, tag, ?_⟩
      intro storable
      rw [unpacked, packed, unpack_pack snappy self storable]
    · refine Or.inr ⟨original, member, id, comm, tag, ?_⟩
      intro storable small
      rw [onWire_of_lt small, Option.some.injEq] at transported
      rw [unpacked, ← transported, unpack_pack snappy self storable]

/-- Each step keeps a state sound. -/
theorem step_sound [DecidableEq Comm] {snappy : Snappy} {commRank : Comm → Int} {self next : Context Comm}
    (sound : self.Sound snappy) (step : Step snappy commRank self next) : next.Sound snappy := by
  cases step with
  | send msg fresh => exact sound.send fresh
  | sendMessages idle => exact sound.sendMessagesFromOutbox idle
  | sendNext _ msg rest sending first moved => exact sound.sendNext sending first moved
  | sendEnd sending empty =>
    exact sound.restage .idle (by simp [sending]) (by simp) (fun _ => empty)
  | poll idle =>
    exact sound.restage _ (by simp [idle]) (by simp)
      (fun _ => sound.handsFree (by simp [idle]))
  | pollNothing comm rest polling =>
    exact sound.restage _ (by simp [polling]) (by simp)
      (fun _ => sound.handsFree (by simp [polling]))
  | receiveNext _ original source rest polling fresh moved =>
    exact sound.receiveNext polling fresh moved
  | pollEnd polling =>
    exact sound.restage .idle (by simp [polling]) (by simp)
      (fun _ => sound.handsFree (by simp [polling]))
  | testSome done idle pending completed =>
    constructor
    · exact sound.sends
    · exact sound.recvs
    · exact fun notWaiting => absurd rfl (notWaiting done)
    · rintro other ⟨⟩
      exact completed
    · exact fun _ => sound.handsFree (by simp [idle])
    · exact sound.accounted
    · exact sound.distinct
    · exact sound.moving
    · exact sound.arrived
  | completeNext _ msgId rest waiting moved => exact sound.completeNext waiting moved
  | cleanUp waiting => exact sound.cleanUp waiting
  | processInbox idle => exact sound.processInboxMessages idle
  | deliverNext _ msg rest first moved => exact sound.deliverNext first moved

/-- A context that has just been created. -/
def created (compressMessages : Bool) (handlers : List Comm) : Context Comm :=
  { compressMessages, handlers }

theorem created_sound (snappy : Snappy) (compressMessages : Bool) (handlers : List Comm) :
    (created compressMessages handlers).Sound snappy := by
  constructor
  · rfl
  · rfl
  · intro _
    exact ⟨List.not_mem_nil, List.not_mem_nil⟩
  · rintro done ⟨⟩
  · exact fun _ => rfl
  · intro id
    rfl
  · intro id
    exact Nat.zero_le 1
  · rintro msg (place | place | place | place | place) <;> cases place
  · rintro msg ⟨⟩

/-- In every run of a rank the message layer keeps its promises: no message is lost
or duplicated, whatever the order of its steps and of the completions. -/
theorem messages_conserved [DecidableEq Comm] (snappy : Snappy) (commRank : Comm → Int) (compressMessages : Bool)
    (handlers : List Comm) {state : Context Comm}
    (reached : Reachable (· = created compressMessages handlers) (Step snappy commRank) state) :
    state.Conserved snappy := by
  have sound : state.Sound snappy := by
    apply reachable_invariant _ _ reached
    · rintro origin rfl
      exact created_sound snappy compressMessages handlers
    · exact fun before after held step => step_sound held step
  exact sound.conserved

/-- A message of one byte that a rank sends to itself. -/
def selfSent : Message Unit := { id := 0, comm := (), rank := 0, tag := 3, data := [7] }

/-- The rank has put that message into its outbox and into the inbox. -/
theorem messages_conserved_self :
    Conserved Snappy.stored ({ created false [()] with
      stage := .sending, inbox := [selfSent], handed := [selfSent] } : Context Unit) := by
  let start : Context Unit := created false [()]
  let sent : Context Unit := { start with outbox := [selfSent], handed := [selfSent] }
  let sending : Context Unit := { start with
    stage := .sending, outgoingMessages := [selfSent], handed := [selfSent] }
  have send : Step Snappy.stored (fun _ => 0) start sent :=
    .send start selfSent ⟨by rintro _ ⟨⟩, by rintro _ ⟨⟩⟩
  have take : Step Snappy.stored (fun _ => 0) sent sending := .sendMessages sent rfl
  have forward : Step Snappy.stored (fun _ => 0) sending
      { created false [()] with stage := .sending, inbox := [selfSent], handed := [selfSent] } :=
    .sendNext sending _ selfSent [] rfl rfl rfl
  exact messages_conserved Snappy.stored (fun _ => 0) false [()]
    ⟨start, rfl, ((Relation.ReflTransGen.single send).tail take).tail forward⟩
theorem onWire_truncates {data : List UInt8} (large : data.length = 2 ^ 32 + 1) :
    onWire data = some (data.take 1) := by
  have count : (data.length : Int).bmod (2 ^ 32) = 1 := by
    rw [Int.bmod_def]
    omega
  unfold onWire
  rw [count]
  rfl

/-- A message of one byte more than 32 bits can count arrives as its first byte. -/
theorem large_message_truncated :
    ¬ ∀ state : Context Unit, Reachable (· = created false [()])
        (Step Snappy.stored fun _ => 0) state →
      ∀ msg ∈ state.delivered, ∃ original, (original ∈ state.handed ∨ original ∈ state.received) ∧
        original.id = msg.id ∧ msg.data = original.data := by
  intro intact
  obtain ⟨data, large⟩ : ∃ data : List UInt8, data.length = 2 ^ 32 + 1 :=
    ⟨List.replicate (2 ^ 32 + 1) 0, List.length_replicate⟩
  have truncated : onWire data = some (data.take 1) := onWire_truncates large
  let original : Message Unit := { id := 0, comm := (), rank := 0, tag := 0, data }
  let arrived : Message Unit := { original with rank := 1, data := data.take 1 }
  let start : Context Unit := created false [()]
  let polling : Context Unit := { start with stage := .polling [()] }
  let received : Context Unit := { start with
    stage := .polling [], pendingRecvs := [some ⟨0⟩], recvCache := [some arrived]
    received := [original] }
  let idle : Context Unit := { received with stage := .idle }
  let waiting : Context Unit := { received with stage := .waiting [0] }
  let completed : Context Unit := { received with
    stage := .waiting [], pendingRecvs := [none], recvCache := [none], inbox := [arrived] }
  let processing : Context Unit := { completed with inbox := [], incomingMessages := [arrived] }
  let last : Context Unit := { processing with incomingMessages := [], delivered := [arrived] }
  have run : Relation.ReflTransGen (Step Snappy.stored fun _ => 0) start last := by
    refine ((((((Relation.ReflTransGen.single (b := polling) ?_).tail (c := received) ?_).tail
      (c := idle) ?_).tail (c := waiting) ?_).tail (c := completed) ?_).tail
      (c := processing) ?_).tail ?_
    · exact .poll start rfl
    · refine .receiveNext polling received original 1 [] rfl ⟨by rintro _ ⟨⟩, by rintro _ ⟨⟩⟩ ?_
      simp only [receiveNext, pack]
      exact congrArg (Option.map _) truncated
    · exact .pollEnd received rfl
    · refine .testSome idle [0] rfl (Or.inr (by simp [idle, received])) ⟨by simp, ?_⟩
      intro index member
      rw [List.mem_singleton.mp member]
      exact ⟨⟨0⟩, rfl⟩
    · exact .completeNext waiting completed 0 [] rfl rfl
    · exact .processInbox completed rfl
    · exact .deliverNext processing last arrived [] rfl rfl
  obtain ⟨source, known, -, same⟩ := intact last ⟨start, rfl, run⟩ arrived List.mem_cons_self
  rcases known with handed | fromOther
  · cases handed
  · obtain rfl := List.mem_singleton.mp fromOther
    have short := congrArg List.length same
    have one : (data.take 1).length ≤ 1 := List.length_take_le 1 data
    change (data.take 1).length = data.length at short
    omega

end Context

end Ospray.Maml
