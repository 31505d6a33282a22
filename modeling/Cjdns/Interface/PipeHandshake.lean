import Cjdns.Interface.PipeFraming
import Cjdns.Library.Simulation

/-!
# The two ends of a pipe

How the interfaces at both ends find a common magic, in terms of whole frames. An end that is
initializing takes over a magic that is smaller than its own, and is established by a frame with
its own one. The frames are on their way in order.

The smaller one of the two magics wins. No end is established before the other one has it, and
as long as an end is not established, an answer that may establish it is still to come.
-/

namespace Cjdns.PipeInterface

/-- A pong -/
def aPong : Frame := { aPing with type := PONG, known := .inr (.inl rfl) }

/-- A frame with the magic that is in front of it -/
structure Sent where
  magic : BitVec 64
  frame : Frame

def Sent.bytes (sent : Sent) : List (BitVec 8) :=
  sent.frame.bytes sent.magic

/-- The messages in frames -/
def dataOf (queue : List Sent) : List (List (BitVec 8)) :=
  (queue.filter (·.frame.type = DATA)).map (·.frame.payload)

@[simp]
theorem dataOf_append (first second : List Sent) :
    dataOf (first ++ second) = dataOf first ++ dataOf second := by
  rw [dataOf, List.filter_append, List.map_append]
  rfl

/-- An end of a pipe -/
inductive Side where
  | near
  | far
deriving DecidableEq

namespace Side

def other : Side → Side
  | near => far
  | far => near

@[simp]
theorem other_other (side : Side) : side.other.other = side := by
  cases side <;> rfl

@[simp]
theorem other_ne (side : Side) : side.other ≠ side := by
  cases side <;> decide

@[simp]
theorem ne_other (side : Side) : side ≠ side.other := by
  cases side <;> decide

/-- What is to be shown of both ends is shown of this one and of the other one. -/
theorem forall_iff {property : Side → Prop} (side : Side) :
    (∀ either, property either) ↔ property side ∧ property side.other := by
  constructor
  · intro all
    exact ⟨all side, all side.other⟩
  · rintro ⟨this, that⟩ either
    cases side <;> cases either <;> assumption

end Side

/-! ## One end -/

/-- An end, as far as the handshake is concerned -/
structure Peer where
  magic : BitVec 64
  established : Bool

namespace Peer

variable (peer : Peer) (sent : Sent)

/-- What a frame makes of an end -/
def takes : Peer :=
  if peer.established then peer
  else if sent.magic < peer.magic then { peer with magic := sent.magic }
  else if sent.magic = peer.magic then { peer with established := true }
  else peer

/-- What a frame is answered with before the magic is compared -/
def greeting : List Sent :=
  if peer.established = false ∧ sent.frame.type = PONG then [⟨peer.magic, aPing⟩] else []

/-- What a frame is answered with after that -/
def answer : List Sent :=
  if sent.frame.type = PING then [⟨(peer.takes sent).magic, aPong⟩] else []

def answers : List Sent :=
  peer.greeting sent ++ peer.answer sent

variable {peer sent}

theorem takes_of_established (established : peer.established = true) :
    peer.takes sent = peer := by
  rw [takes, if_pos established]

theorem magic_takes_of_le (least : peer.magic ≤ sent.magic) :
    (peer.takes sent).magic = peer.magic := by
  rw [takes, if_neg (BitVec.not_lt.mpr least)]
  split_ifs <;> rfl

theorem takes_of_lt (less : sent.magic < peer.magic) (starting : peer.established = false) :
    peer.takes sent = { peer with magic := sent.magic } := by
  rw [takes, if_neg (by simp [starting]), if_pos less]

theorem takes_of_eq (same : sent.magic = peer.magic) :
    peer.takes sent = { peer with established := true } := by
  cases peer with
  | mk magic established =>
      subst same
      cases established
      · rw [takes, if_neg (by simp), if_neg (BitVec.lt_irrefl _), if_pos rfl]
      · rw [takes, if_pos rfl]

/-- Only a frame with its own magic establishes an end. -/
theorem established_takes (established : (peer.takes sent).established = true) :
    peer.established = true ∨ sent.magic = peer.magic := by
  revert established
  rw [takes]
  split_ifs with already less same
  · exact fun _ => .inl already
  · exact fun now => .inl now
  · exact fun _ => .inr same
  · exact fun now => .inl now

theorem dataOf_answers : dataOf (peer.answers sent) = [] := by
  rw [answers, dataOf_append, greeting, answer]
  split_ifs <;> rfl

theorem magic_greeting : ∀ answer ∈ peer.greeting sent, answer.magic = peer.magic := by
  rw [greeting]
  split_ifs <;> simp

theorem magic_answer : ∀ answer ∈ peer.answer sent, answer.magic = (peer.takes sent).magic := by
  rw [answer]
  split_ifs <;> simp

end Peer

/-! ## Both ends -/

/-- Both ends, the frames on their way to each of them, and the messages that each of them has
sent and handed on -/
structure Talk where
  peer : Side → Peer
  queue : Side → List Sent
  said : Side → List (List (BitVec 8))
  heard : Side → List (List (BitVec 8))

namespace Talk

/-- What happens to an end -/
inductive Event where
  /-- The first frame on its way to it is taken. -/
  | take (side : Side)
  /-- It sends a ping. -/
  | ping (side : Side)
  /-- It sends a message. -/
  | send (side : Side) (frame : Frame)

variable (talk : Talk)

/-- Frames are put on the way to the other end. -/
def put (side : Side) (frames : List Sent) : Talk :=
  { talk with
    queue := Function.update talk.queue side.other (talk.queue side.other ++ frames) }

/-- The first frame is taken and answered. -/
def take (side : Side) (sent : Sent) (rest : List Sent) : Talk where
  peer := Function.update talk.peer side ((talk.peer side).takes sent)
  queue := Function.update (Function.update talk.queue side rest) side.other
    (talk.queue side.other ++ (talk.peer side).answers sent)
  said := talk.said
  heard := Function.update talk.heard side (talk.heard side ++ dataOf [sent])

/-- A message is put on its way. -/
def send (side : Side) (frame : Frame) : Talk :=
  { talk.put side [⟨(talk.peer side).magic, frame⟩] with
    said := Function.update talk.said side (talk.said side ++ [frame.payload]) }

section

variable {talk} {side : Side} {sent : Sent} {rest frames : List Sent}

@[simp]
theorem queue_put_other : (talk.put side frames).queue side.other =
    talk.queue side.other ++ frames :=
  Function.update_self _ _ _

@[simp]
theorem queue_put_self : (talk.put side frames).queue side = talk.queue side :=
  Function.update_of_ne (Side.ne_other side) _ _

@[simp]
theorem peer_take_self : (talk.take side sent rest).peer side = (talk.peer side).takes sent :=
  Function.update_self _ _ _

@[simp]
theorem peer_take_other : (talk.take side sent rest).peer side.other = talk.peer side.other :=
  Function.update_of_ne (Side.other_ne side) _ _

@[simp]
theorem queue_take_self : (talk.take side sent rest).queue side = rest :=
  (Function.update_of_ne (Side.ne_other side) _ _).trans (Function.update_self _ _ _)

@[simp]
theorem queue_take_other : (talk.take side sent rest).queue side.other =
    talk.queue side.other ++ (talk.peer side).answers sent :=
  Function.update_self _ _ _

@[simp]
theorem heard_take_self : (talk.take side sent rest).heard side =
    talk.heard side ++ dataOf [sent] :=
  Function.update_self _ _ _

@[simp]
theorem heard_take_other : (talk.take side sent rest).heard side.other =
    talk.heard side.other :=
  Function.update_of_ne (Side.other_ne side) _ _

@[simp]
theorem said_send_self {frame : Frame} : (talk.send side frame).said side =
    talk.said side ++ [frame.payload] :=
  Function.update_self _ _ _

@[simp]
theorem said_send_other {frame : Frame} : (talk.send side frame).said side.other =
    talk.said side.other :=
  Function.update_of_ne (Side.other_ne side) _ _

end

/-- A step; only an established end sends messages. -/
inductive Step : Talk → Event → Talk → Prop where
  | take {talk : Talk} {side : Side} {sent : Sent} {rest : List Sent}
      (first : talk.queue side = sent :: rest) : Step talk (.take side) (talk.take side sent rest)
  | ping {talk : Talk} (side : Side) :
      Step talk (.ping side) (talk.put side [⟨(talk.peer side).magic, aPing⟩])
  | send {talk : Talk} {side : Side} {frame : Frame} (data : frame.type = DATA)
      (ready : (talk.peer side).established = true) :
      Step talk (.send side frame) (talk.send side frame)

/-- Both ends have sent a ping with their own magic. -/
def start (magic : Side → BitVec 64) : Talk where
  peer side := ⟨magic side, false⟩
  queue side := [⟨magic side.other, aPing⟩]
  said _ := []
  heard _ := []

/-- The talks of two ends that begin with these magics -/
def talks (magic : Side → BitVec 64) : TransitionSystem Talk Event where
  initial talk := talk = start magic
  step := Step

/-- The magic that both come to -/
def least (magic : Side → BitVec 64) : BitVec 64 :=
  if magic .near ≤ magic .far then magic .near else magic .far

variable {magic : Side → BitVec 64}

theorem least_le (side : Side) : least magic ≤ magic side := by
  rw [least]
  cases side <;> split_ifs with less
  · exact BitVec.le_refl _
  · exact BitVec.le_of_lt (BitVec.not_le.mp less)
  · exact less
  · exact BitVec.le_refl _

theorem least_eq (side : Side) : least magic = magic side ∨ least magic = magic side.other := by
  rw [least]
  cases side <;> split_ifs <;> simp [Side.other]

/-! ## The invariant -/

/-- Frames of an end, in the order in which they were sent: first those with the magic that it
began with, then those with the smaller one -/
def Tagged (own least current : BitVec 64) (queue : List Sent) : Prop :=
  ∃ early late, queue = early ++ late ∧ (∀ sent ∈ early, sent.magic = own) ∧
    (∀ sent ∈ late, sent.magic = least) ∧ (late = [] ∧ current = own ∨ current = least)

namespace Tagged

variable {own least current : BitVec 64} {queue rest frames : List Sent} {sent : Sent}

theorem current_eq (tagged : Tagged own least current queue) :
    current = own ∨ current = least := by
  rcases tagged with ⟨_, _, -, -, -, ⟨-, same⟩ | same⟩
  · exact .inl same
  · exact .inr same

theorem magic_eq (tagged : Tagged own least current queue) (inside : sent ∈ queue) :
    sent.magic = own ∨ sent.magic = least := by
  rcases tagged with ⟨early, late, rfl, first, second, -⟩
  rcases List.mem_append.mp inside with earlier | later
  · exact .inl (first sent earlier)
  · exact .inr (second sent later)

theorem append (tagged : Tagged own least current queue)
    (same : ∀ sent ∈ frames, sent.magic = current) :
    Tagged own least current (queue ++ frames) := by
  rcases tagged with ⟨early, late, rfl, first, second, ⟨rfl, begun⟩ | changed⟩
  · refine ⟨early ++ frames, [], by simp, fun sent inside => ?_, by simp, .inl ⟨rfl, begun⟩⟩
    rcases List.mem_append.mp inside with earlier | later
    · exact first sent earlier
    · exact (same sent later).trans begun
  · refine ⟨early, late ++ frames, by simp, first, fun sent inside => ?_, .inr changed⟩
    rcases List.mem_append.mp inside with earlier | later
    · exact second sent earlier
    · exact (same sent later).trans changed

/-- The end takes over the smaller magic. -/
theorem adopt (tagged : Tagged own least current queue) : Tagged own least least queue := by
  rcases tagged with ⟨early, late, rfl, first, second, -⟩
  exact ⟨early, late, rfl, first, second, .inr rfl⟩

theorem tail (tagged : Tagged own least current (sent :: rest)) :
    Tagged own least current rest := by
  rcases tagged with ⟨_ | ⟨head, early⟩, late, same, first, second, now⟩
  · rw [List.nil_append] at same
    subst same
    refine ⟨[], rest, rfl, by simp, fun other inside => second other (.tail _ inside), ?_⟩
    exact .inr (now.resolve_left (by simp))
  · rw [List.cons_append, List.cons.injEq] at same
    exact ⟨early, late, same.2, fun other inside => first other (.tail _ inside), second, now⟩

/-- Behind a frame with the smaller magic, there are only such frames. -/
theorem of_head (tagged : Tagged own least current (sent :: rest))
    (smaller : sent.magic = least) :
    current = least ∧ ∀ other ∈ rest, other.magic = least := by
  by_cases equal : own = least
  · subst equal
    exact ⟨tagged.current_eq.elim id id, fun other inside =>
      (tagged.magic_eq (.tail _ inside)).elim id id⟩
  · rcases tagged with ⟨_ | ⟨head, early⟩, late, same, first, second, now⟩
    · rw [List.nil_append] at same
      subst same
      refine ⟨now.elim (fun none => absurd none.1 (by simp)) id, ?_⟩
      exact fun other inside => second other (.tail _ inside)
    · rw [List.cons_append, List.cons.injEq] at same
      rw [same.1] at smaller
      exact absurd ((first head List.mem_cons_self).symm.trans smaller) equal

end Tagged

/-- What holds in every talk -/
structure Sound (magic : Side → BitVec 64) (talk : Talk) : Prop where
  tagged : ∀ side, Tagged (magic side) (least magic) (talk.peer side).magic
    (talk.queue side.other)
  agreed : ∀ side, (talk.peer side).established = true →
    ∀ either, (talk.peer either).magic = least magic
  settled : ∀ side, (talk.peer side).established = true →
    ∀ sent ∈ talk.queue side, sent.magic = least magic
  awaited : ∀ side, (talk.peer side).established = false →
    (∃ sent ∈ talk.queue side.other, sent.frame.type = PING) ∨
      ∃ sent ∈ talk.queue side, sent.frame.type = PONG
  exact : ∀ side, talk.said side.other = talk.heard side ++ dataOf (talk.queue side)

theorem sound_start (magic : Side → BitVec 64) : (start magic).Sound magic where
  tagged side := ⟨[⟨magic side, aPing⟩], [], by simp [start], by simp, by simp, .inl ⟨rfl, rfl⟩⟩
  agreed _ established := by cases established
  settled _ established := by cases established
  awaited side _ := .inl ⟨_, List.mem_singleton_self _, rfl⟩
  exact _ := rfl

variable {talk : Talk} {side : Side} {sent : Sent} {rest frames : List Sent}

namespace Sound

/-- Frames with the magic of an end are put on the way. -/
theorem tagged_put (sound : talk.Sound magic)
    (same : ∀ sent ∈ frames, sent.magic = (talk.peer side).magic) (either : Side) :
    Tagged (magic either) (least magic) (talk.peer either).magic
      ((talk.put side frames).queue either.other) := by
  revert either
  rw [Side.forall_iff side]
  constructor
  · rw [queue_put_other]
    exact (sound.tagged side).append same
  · rw [Side.other_other, queue_put_self]
    simpa using sound.tagged side.other

theorem settled_put (sound : talk.Sound magic)
    (same : ∀ sent ∈ frames, sent.magic = (talk.peer side).magic) (either : Side)
    (established : (talk.peer either).established = true) :
    ∀ sent ∈ (talk.put side frames).queue either, sent.magic = least magic := by
  revert either
  rw [Side.forall_iff side]
  constructor
  · intro established
    rw [queue_put_self]
    exact sound.settled side established
  · intro established sent inside
    rw [queue_put_other] at inside
    rcases List.mem_append.mp inside with earlier | later
    · exact sound.settled side.other established sent earlier
    · exact (same sent later).trans (sound.agreed side.other established side)

theorem awaited_put (sound : talk.Sound magic) (either : Side)
    (starting : (talk.peer either).established = false) :
    (∃ sent ∈ (talk.put side frames).queue either.other, sent.frame.type = PING) ∨
      ∃ sent ∈ (talk.put side frames).queue either, sent.frame.type = PONG := by
  have grows (either : Side) : talk.queue either ⊆ (talk.put side frames).queue either := by
    revert either
    rw [Side.forall_iff side]
    simp
  rcases sound.awaited either starting with ⟨sent, inside, ping⟩ | ⟨sent, inside, pong⟩
  · exact .inl ⟨sent, grows _ inside, ping⟩
  · exact .inr ⟨sent, grows _ inside, pong⟩

theorem ping (sound : talk.Sound magic) (side : Side) :
    (talk.put side [⟨(talk.peer side).magic, aPing⟩]).Sound magic where
  tagged := sound.tagged_put (by simp)
  agreed := sound.agreed
  settled := sound.settled_put (by simp)
  awaited := sound.awaited_put
  exact := by
    rw [Side.forall_iff side]
    constructor
    · rw [queue_put_self]
      exact sound.exact side
    · have nothing : dataOf [⟨(talk.peer side).magic, aPing⟩] = [] := rfl
      rw [queue_put_other, dataOf_append, nothing, List.append_nil]
      exact sound.exact side.other

theorem send {frame : Frame} (sound : talk.Sound magic) (data : frame.type = DATA) :
    (talk.send side frame).Sound magic where
  tagged := sound.tagged_put (by simp)
  agreed := sound.agreed
  settled := sound.settled_put (by simp)
  awaited := sound.awaited_put
  exact := by
    rw [Side.forall_iff side]
    constructor
    · rw [said_send_other]
      exact (sound.exact side).trans (by rw [Talk.send, queue_put_self]; rfl)
    · have said := sound.exact side.other
      rw [Side.other_other] at said ⊢
      rw [said_send_self, said, Talk.send, queue_put_other, dataOf_append, ← List.append_assoc]
      simp [dataOf, data, Talk.put]

/-- The magic of an end that has not taken over the smaller one yet is to be taken over. -/
theorem least_lt (sound : talk.Sound magic) (first : talk.queue side = sent :: rest)
    (waits : (talk.peer side).magic ≠ least magic) :
    sent.magic = least magic ∧ sent.magic < (talk.peer side).magic ∧
      (talk.peer side).established = false := by
  have own := (sound.tagged side).current_eq.resolve_right waits
  have others : least magic = magic side.other :=
    (least_eq side).resolve_left fun same => waits (own.trans same.symm)
  have queued := sound.tagged side.other
  rw [Side.other_other, first] at queued
  have magics : sent.magic = least magic :=
    (queued.magic_eq List.mem_cons_self).elim (fun same => same.trans others.symm) id
  refine ⟨magics, ?_, ?_⟩
  · rw [magics, own]
    refine BitVec.lt_of_le_ne (least_le side) fun same => waits (own.trans same.symm)
  · rw [← Bool.not_eq_true]
    exact fun established => waits (sound.agreed side established side)

theorem least_le_head (sound : talk.Sound magic) (first : talk.queue side = sent :: rest) :
    least magic ≤ sent.magic := by
  have queued := sound.tagged side.other
  rw [Side.other_other, first] at queued
  rcases queued.magic_eq List.mem_cons_self with same | same <;> rw [same]
  · exact least_le side.other
  · exact BitVec.le_refl _

/-- An end that has the smaller magic already keeps it. -/
theorem magic_takes (sound : talk.Sound magic) (first : talk.queue side = sent :: rest)
    (has : (talk.peer side).magic = least magic) :
    ((talk.peer side).takes sent).magic = least magic := by
  rw [Peer.magic_takes_of_le (has ▸ sound.least_le_head first), has]

theorem tagged_take (sound : talk.Sound magic) (first : talk.queue side = sent :: rest)
    (either : Side) :
    Tagged (magic either) (least magic) ((talk.take side sent rest).peer either).magic
      ((talk.take side sent rest).queue either.other) := by
  revert either
  rw [Side.forall_iff side]
  constructor
  · rw [queue_take_other, peer_take_self, Peer.answers, ← List.append_assoc]
    have greeted := (sound.tagged side).append (@Peer.magic_greeting (talk.peer side) sent)
    by_cases has : (talk.peer side).magic = least magic
    · have keeps := sound.magic_takes first has
      rw [has, ← keeps] at greeted
      exact keeps ▸ (greeted.append Peer.magic_answer)
    · rcases sound.least_lt first has with ⟨smaller, less, starting⟩
      have adopts : ((talk.peer side).takes sent).magic = least magic := by
        rw [Peer.takes_of_lt less starting, ← smaller]
      have changed := greeted.adopt
      rw [← adopts] at changed
      exact adopts ▸ (changed.append Peer.magic_answer)
  · have queued := sound.tagged side.other
    rw [Side.other_other, first] at queued
    rw [Side.other_other, queue_take_self, peer_take_other]
    exact queued.tail

/-- An end that is established now has found the smaller magic in a frame of the other one. -/
theorem agreed_takes (sound : talk.Sound magic) (first : talk.queue side = sent :: rest)
    (established : ((talk.peer side).takes sent).established = true) :
    (∀ either, (talk.peer either).magic = least magic) ∧
      ∀ other ∈ rest, other.magic = least magic := by
  have queued := sound.tagged side.other
  rw [Side.other_other, first] at queued
  by_cases has : (talk.peer side).magic = least magic
  · rcases Peer.established_takes established with already | same
    · refine ⟨sound.agreed side already, fun other inside => ?_⟩
      exact sound.settled side already other (first ▸ List.mem_cons_of_mem _ inside)
    · rcases queued.of_head (same.trans has) with ⟨others, behind⟩
      exact ⟨(Side.forall_iff side).mpr ⟨has, others⟩, behind⟩
  · rcases sound.least_lt first has with ⟨-, less, starting⟩
    rw [Peer.takes_of_lt less starting] at established
    rw [starting] at established
    cases established

theorem agreed_take (sound : talk.Sound magic) (first : talk.queue side = sent :: rest)
    (either : Side) (established : ((talk.take side sent rest).peer either).established = true) :
    ∀ which, ((talk.take side sent rest).peer which).magic = least magic := by
  have before : ∀ which, (talk.peer which).magic = least magic := by
    revert either
    rw [Side.forall_iff side]
    constructor
    · rw [peer_take_self]
      exact fun established => (sound.agreed_takes first established).1
    · rw [peer_take_other]
      exact sound.agreed side.other
  rw [Side.forall_iff side, peer_take_self, peer_take_other]
  exact ⟨sound.magic_takes first (before side), before side.other⟩

theorem settled_take (sound : talk.Sound magic) (first : talk.queue side = sent :: rest)
    (either : Side) (established : ((talk.take side sent rest).peer either).established = true) :
    ∀ other ∈ (talk.take side sent rest).queue either, other.magic = least magic := by
  have now := sound.agreed_take first either established side
  revert either
  rw [Side.forall_iff side]
  constructor
  · rw [peer_take_self, queue_take_self]
    exact fun established _ inside => (sound.agreed_takes first established).2 _ inside
  · rw [peer_take_other, queue_take_other]
    intro established answer inside
    rw [peer_take_self] at now
    rcases List.mem_append.mp inside with earlier | later
    · exact sound.settled side.other established answer earlier
    rcases List.mem_append.mp later with greeting | answered
    · exact (Peer.magic_greeting answer greeting).trans (sound.agreed side.other established side)
    · exact (Peer.magic_answer answer answered).trans now

/-- A pong that does not establish an end is answered with a ping, and every ping with a pong. -/
theorem awaited_take (sound : talk.Sound magic) (first : talk.queue side = sent :: rest)
    (either : Side)
    (starting : ((talk.take side sent rest).peer either).established = false) :
    (∃ other ∈ (talk.take side sent rest).queue either.other, other.frame.type = PING) ∨
      ∃ other ∈ (talk.take side sent rest).queue either, other.frame.type = PONG := by
  revert either
  rw [Side.forall_iff side]
  constructor
  · rw [peer_take_self, queue_take_other, queue_take_self]
    intro starting
    have before : (talk.peer side).established = false := by
      rw [← Bool.not_eq_true] at starting ⊢
      exact fun established => starting (by rw [Peer.takes_of_established established, established])
    rcases sound.awaited side before with ⟨other, inside, ping⟩ | ⟨other, inside, pong⟩
    · exact .inl ⟨other, List.mem_append_left _ inside, ping⟩
    · rw [first] at inside
      rcases List.mem_cons.mp inside with rfl | behind
      · have greets : (talk.peer side).greeting other = [⟨(talk.peer side).magic, aPing⟩] :=
          if_pos ⟨before, pong⟩
        refine .inl ⟨⟨(talk.peer side).magic, aPing⟩, List.mem_append_right _ ?_, rfl⟩
        exact List.mem_append_left _ (greets ▸ List.mem_singleton_self _)
      · exact .inr ⟨other, behind, pong⟩
  · rw [peer_take_other, Side.other_other, queue_take_self, queue_take_other]
    intro starting
    rcases sound.awaited side.other starting with ⟨other, inside, ping⟩ | ⟨other, inside, pong⟩
    · rw [Side.other_other, first] at inside
      rcases List.mem_cons.mp inside with rfl | behind
      · have answers : (talk.peer side).answer other =
            [⟨((talk.peer side).takes other).magic, aPong⟩] := if_pos ping
        refine .inr ⟨⟨((talk.peer side).takes other).magic, aPong⟩,
          List.mem_append_right _ ?_, rfl⟩
        exact List.mem_append_right _ (answers ▸ List.mem_singleton_self _)
      · exact .inl ⟨other, behind, ping⟩
    · exact .inr ⟨other, List.mem_append_left _ inside, pong⟩

theorem take (sound : talk.Sound magic) (first : talk.queue side = sent :: rest) :
    (talk.take side sent rest).Sound magic where
  tagged := sound.tagged_take first
  agreed := sound.agreed_take first
  settled := sound.settled_take first
  awaited := sound.awaited_take first
  exact := by
    rw [Side.forall_iff side]
    constructor
    · rw [heard_take_self, queue_take_self, List.append_assoc, ← dataOf_append,
        List.singleton_append, ← first]
      exact sound.exact side
    · rw [heard_take_other, queue_take_other, dataOf_append, Peer.dataOf_answers, List.append_nil]
      exact sound.exact side.other

end Sound

/-- Every talk is sound. -/
theorem sound_isInvariant (magic : Side → BitVec 64) :
    (talks magic).IsInvariant (fun _ _ => True) (Sound magic) where
  initial := by
    rintro _ rfl
    exact sound_start magic
  step sound _ taken := by
    cases taken with
    | take first => exact sound.take first
    | ping side => exact sound.ping side
    | send data _ => exact sound.send data

end Talk

end Cjdns.PipeInterface
