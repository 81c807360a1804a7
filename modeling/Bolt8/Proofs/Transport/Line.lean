import Bolt8.Proofs.Transport.Accept
import Bolt8.Proofs.Transport.Duplex

/-!
# Two ends in step

Two channels with a queue of whole frames in each direction. The frame at the
head of a queue is received at once, or its length first, any number of times,
and its message after. However the two ends and the two ways are mixed, each
frame gives the message it was made of, and leaves the receiving key where the
sending key was when the frame had been made (`in_step_throughout`).
-/

namespace Bolt8

/-- A frame on its way, with the message it was made of and the key its sender
was left with. -/
structure Parcel where
  frame : Bytes
  message : Bytes
  key : RotatingKey

namespace RotatingKey

def parcel (k : RotatingKey) (m : Message) : Parcel := ⟨k.frame m.val, m.val, k.advance.advance⟩

/-- The frames of these messages, each under the key that the one before leaves. -/
def parcels : RotatingKey → List Message → List Parcel
  | _, [] => []
  | k, m :: ms => k.parcel m :: parcels k.advance.advance ms

theorem parcels_snoc (k : RotatingKey) (ms : List Message) (m : Message) :
    k.parcels (ms ++ [m]) = k.parcels ms ++ [(k.after ms).parcel m] := by
  induction ms generalizing k with
  | nil => rfl
  | cons m' ms ih =>
      rw [List.cons_append, parcels, ih, parcels]
      rfl

end RotatingKey

namespace Channel

variable {c : Channel} {m : Message}

/-! ## A frame in two parts -/

theorem exists_decryptLength_frame (c : Channel) (m : Message) :
    ∃ sealed length, FixedBytes.firstOf? 18 (c.receiving.frame m.val) = some sealed ∧
      length.toNat = m.val.length ∧
      c.decryptLength sealed = ⟨.ok length, { c with pending := some length }, []⟩ := by
  have hfits : m.val.length < UInt16.size := by
    have hle : m.val.length ≤ 65535 := m.property
    rw [UInt16.size]
    omega
  have hlength : (UInt16.ofNat m.val.length).toNat = m.val.length :=
    UInt16.toNat_ofNat_of_lt' hfits
  have hannounces : c.Announces (c.receiving.frame m.val) (.ofNat m.val.length) := by
    rw [announces_iff, hlength, RotatingKey.take_frame]
  obtain ⟨sealed, hfirst, hannounced⟩ := hannounces
  exact ⟨sealed, _, hfirst, hlength, decryptLength_of_announced hannounced⟩

theorem decryptMessage_frame {length : UInt16} (hpending : c.pending = some length)
    (hlength : length.toNat = m.val.length) (hkey : c.receiving.AtFrame) :
    c.decryptMessage ((c.receiving.frame m.val).drop sealedLengthSize) =
      ⟨.ok m.val, c.commit, c.commit.receiving.rotation .receiving⟩ := by
  have hbody : (c.receiving.frame m.val).drop sealedLengthSize =
      c.receiving.advance.encrypt m.val := by
    rw [RotatingKey.frame]
    exact List.drop_left' (RotatingKey.length_header _ _)
  have hsize : (c.receiving.advance.encrypt m.val).length = length.toNat + Aead.tagSize := by
    rw [RotatingKey.length_encrypt, hlength]
  rw [hbody]
  exact decryptMessage_of_opens hpending hsize (RotatingKey.decryptAt_encrypt_advance hkey m.val)

/-- Not of the size that a pending length asks for. -/
def Misfit (c : Channel) (body : Bytes) : Prop :=
  ∀ length, c.pending = some length → body.length ≠ length.toNat + Aead.tagSize

instance (c : Channel) (body : Bytes) : Decidable (c.Misfit body) :=
  match h : c.pending with
  | none => .isTrue fun _ hsome => nomatch h.symm.trans hsome
  | some length =>
    if hsize : body.length = length.toNat + Aead.tagSize then
      .isFalse fun hmisfit => hmisfit length h hsize
    else
      .isTrue fun _ hsome => Option.some.inj (h.symm.trans hsome) ▸ hsize

theorem decryptMessage_misfit {body : Bytes} (h : c.Misfit body) :
    ∃ e, c.decryptMessage body = ⟨.error e, c, []⟩ := by
  unfold decryptMessage
  cases hpending : c.pending with
  | none => exact ⟨_, rfl⟩
  | some length => exact ⟨_, if_pos (h length hpending)⟩

end Channel

/-! ## The line -/

open Channel

/-- A channel, and the frames on their way to it, oldest first. -/
structure Station where
  channel : Channel
  queue : List Parcel

structure Line where
  near : Station
  far : Station

namespace Line

/-- What an end does: send a message of any size; receive the frame at the head
of its queue at once; receive its length; offer bytes of a size that was not
announced; or receive its message. -/
inductive Action
  | send (message : Bytes)
  | whole
  | length
  | misfit (body : Bytes)
  | message

inductive Move
  | near (action : Action)
  | far (action : Action)

def start (a b : Channel) : Line := ⟨⟨a, []⟩, ⟨b, []⟩⟩

def swap (s : Line) : Line := ⟨s.far, s.near⟩

/-- An action of the near end. -/
def act (s : Line) : Action → Line
  | .send message =>
    let out := s.near.channel.encrypt message
    let near := { s.near with channel := out.state }
    match out.result with
    | .ok frame =>
      ⟨near, { s.far with queue := s.far.queue ++ [⟨frame, message, out.state.sending⟩] }⟩
    | .error _ => { s with near }
  | .whole =>
    match s.near.queue with
    | [] => s
    | p :: queue =>
      let out := s.near.channel.decryptFrame p.frame
      match out.result with
      | .ok (some _) => { s with near := ⟨out.state, queue⟩ }
      | .ok none | .error _ => { s with near := ⟨out.state, p :: queue⟩ }
  | .length =>
    match s.near.queue with
    | [] => s
    | p :: queue =>
      match FixedBytes.firstOf? 18 p.frame with
      | none => s
      | some sealed =>
        { s with near := ⟨(s.near.channel.decryptLength sealed).state, p :: queue⟩ }
  | .misfit body =>
    if s.near.channel.Misfit body then
      { s with near := { s.near with channel := (s.near.channel.decryptMessage body).state } }
    else s
  | .message =>
    match s.near.queue with
    | [] => s
    | p :: queue =>
      let out := s.near.channel.decryptMessage (p.frame.drop sealedLengthSize)
      match out.result with
      | .ok _ => { s with near := ⟨out.state, queue⟩ }
      | .error _ => { s with near := ⟨out.state, p :: queue⟩ }

def after (s : Line) : Move → Line
  | .near action => s.act action
  | .far action => (s.swap.act action).swap

/-- The line after a sequence of moves. -/
def run (s : Line) (moves : List Move) : Line := moves.foldl after s

/-- What an action of the near end has to come to. A message that is too large
is refused, and changes nothing; any other is sent. The length of a frame is that
of its message, and is pending from then on. A frame received at once, with no
length pending, or its message, once its length is, is received as it was made:
nothing is pending any more, and the receiving key is the one that the sender was
left with. -/
def Exact (s : Line) : Action → Prop
  | .send message =>
    if maxMessageSize < message.length then
      (s.near.channel.encrypt message).result = .error (.messageTooLarge message.length) ∧
        s.act (.send message) = s
    else ∃ frame, (s.near.channel.encrypt message).result = .ok frame
  | .whole =>
    match s.near.queue with
    | [] => True
    | p :: _ => s.near.channel.pending = none →
      let out := s.near.channel.decryptFrame p.frame
      out.result = .ok (some ⟨p.message, p.frame.length⟩) ∧ out.state.pending = none ∧
        out.state.receiving = p.key
  | .length =>
    match s.near.queue with
    | [] => True
    | p :: _ => ∃ sealed length, FixedBytes.firstOf? 18 p.frame = some sealed ∧
      (s.near.channel.decryptLength sealed).result = .ok length ∧
      length.toNat = p.message.length ∧
      (s.act .length).near.channel.pending = some length
  | .misfit body => s.near.channel.Misfit body →
    (∃ e, (s.near.channel.decryptMessage body).result = .error e) ∧ s.act (.misfit body) = s
  | .message =>
    match s.near.queue with
    | [] => True
    | p :: _ => s.near.channel.pending ≠ none →
      let out := s.near.channel.decryptMessage (p.frame.drop sealedLengthSize)
      out.result = .ok p.message ∧ out.state.pending = none ∧ out.state.receiving = p.key

def InStep (s : Line) : Move → Prop
  | .near action => s.Exact action
  | .far action => s.swap.Exact action

/-! ## One direction -/

/-- The messages `coming` are in the queue: their frames lead from the receiving
key to the sending key, and a length that is pending is that of the first. -/
structure Synced (sending receiving : RotatingKey) (pending : Option UInt16)
    (queue : List Parcel) (coming : List Message) : Prop where
  atFrame : receiving.AtFrame
  frames : queue = receiving.parcels coming
  sender : sending = receiving.after coming
  announced : ∀ length, pending = some length →
    ∃ m rest, coming = m :: rest ∧ length.toNat = m.val.length

namespace Synced

variable {sending receiving : RotatingKey} {pending : Option UInt16} {p : Parcel}
  {queue : List Parcel} {coming : List Message}

theorem start {key : Aead.Key} {chainingKey : Digest} (hsending : sending = .start key chainingKey)
    (hreceiving : receiving = .start key chainingKey) (hpending : pending = none) :
    Synced sending receiving pending [] [] := by
  subst hsending hreceiving hpending
  exact ⟨RotatingKey.atFrame_start .., rfl, rfl, nofun⟩

theorem send (h : Synced sending receiving pending queue coming) (m : Message) :
    Synced sending.advance.advance receiving pending
      (queue ++ [sending.parcel m]) (coming ++ [m]) where
  atFrame := h.atFrame
  frames := by rw [RotatingKey.parcels_snoc, ← h.frames, ← h.sender]
  sender := by rw [RotatingKey.after_snoc, ← h.sender]
  announced := by
    intro length hpending
    obtain ⟨m', rest, hcoming, hlength⟩ := h.announced length hpending
    exact ⟨m', rest ++ [m], by rw [hcoming, List.cons_append], hlength⟩

/-- The frame at the head, and the direction once its length is pending and once
it has been received. -/
theorem head (h : Synced sending receiving pending (p :: queue) coming) :
    ∃ m rest, p = receiving.parcel m ∧
      (∀ length, pending = some length → length.toNat = m.val.length) ∧
      (∀ length, length.toNat = m.val.length →
        Synced sending receiving (some length) (p :: queue) coming) ∧
      Synced sending receiving.advance.advance none queue rest := by
  cases coming with
  | nil => exact nomatch h.frames
  | cons m rest =>
      obtain ⟨hp, hqueue⟩ := List.cons.inj h.frames
      refine ⟨m, rest, hp, ?_, ?_, ?_⟩
      · intro length hpending
        obtain ⟨m', rest', hcoming, hlength⟩ := h.announced length hpending
        obtain ⟨rfl, -⟩ := List.cons.inj hcoming
        exact hlength
      · intro length hlength
        refine { h with announced := ?_ }
        intro length' hpending
        rw [← Option.some.inj hpending]
        exact ⟨m, rest, rfl, hlength⟩
      · exact ⟨RotatingKey.atFrame_advance_advance h.atFrame, hqueue, h.sender, nofun⟩

end Synced

/-! ## Both directions -/

def Linked (s : Line) : Prop :=
  (∃ there, Synced s.near.channel.sending s.far.channel.receiving s.far.channel.pending
    s.far.queue there) ∧
  ∃ back, Synced s.far.channel.sending s.near.channel.receiving s.near.channel.pending
    s.near.queue back

theorem linked_start {a b : Channel} (h : a.Mirrored b) : (start a b).Linked := by
  obtain ⟨first, second, chainingKey, ha, hb, hb', ha', hpa, hpb⟩ := h
  exact ⟨⟨[], .start ha hb hpb⟩, [], .start hb' ha' hpa⟩

section

variable {s : Line}

theorem exact_send (h : s.Linked) (message : Bytes) :
    s.Exact (.send message) ∧ (s.act (.send message)).Linked := by
  obtain ⟨⟨there, hthere⟩, back, hback⟩ := h
  by_cases hlarge : maxMessageSize < message.length
  · have hout : s.near.channel.encrypt message =
        ⟨.error (.messageTooLarge message.length), s.near.channel, []⟩ := if_pos hlarge
    have hact : s.act (.send message) = s := by rw [act, hout]
    rw [hact, Exact, if_pos hlarge]
    exact ⟨⟨by rw [hout], hact⟩, ⟨there, hthere⟩, back, hback⟩
  · have hfits := Nat.le_of_not_lt hlarge
    rw [Exact, if_neg hlarge]
    simp only [act, encrypt_eq s.near.channel hfits]
    exact ⟨⟨_, rfl⟩, ⟨_, hthere.send ⟨message, hfits⟩⟩, back, hback⟩

theorem exact_whole (h : s.Linked) : s.Exact .whole ∧ (s.act .whole).Linked := by
  obtain ⟨⟨there, hthere⟩, back, hback⟩ := h
  cases hqueue : s.near.queue with
  | nil =>
      simp only [Exact, act, hqueue]
      exact ⟨trivial, ⟨there, hthere⟩, back, hback⟩
  | cons p queue =>
      rw [hqueue] at hback
      obtain ⟨m, rest, rfl, -, -, hnext⟩ := hback.head
      simp only [Exact, act, hqueue]
      cases hpending : s.near.channel.pending with
      | none =>
          have hout := decryptFrame_frame hpending hback.atFrame m.property []
          rw [List.append_nil, ← length_frame s.near.channel.receiving m.val] at hout
          simp only [RotatingKey.parcel, hout]
          exact ⟨fun _ => ⟨trivial, rfl, rfl⟩, ⟨there, hthere⟩, rest, hnext⟩
      | some length =>
          have hout : s.near.channel.decryptFrame (s.near.channel.receiving.parcel m).frame =
              ⟨.error .outOfTurn, s.near.channel, []⟩ := by
            rw [decryptFrame, hpending, Option.isSome_some, if_pos rfl]
          simp only [hout]
          exact ⟨nofun, ⟨there, hthere⟩, back, hback⟩

theorem exact_length (h : s.Linked) : s.Exact .length ∧ (s.act .length).Linked := by
  obtain ⟨⟨there, hthere⟩, back, hback⟩ := h
  cases hqueue : s.near.queue with
  | nil =>
      simp only [Exact, act, hqueue]
      exact ⟨trivial, ⟨there, hthere⟩, back, hback⟩
  | cons p queue =>
      rw [hqueue] at hback
      obtain ⟨m, rest, rfl, -, hannounced, -⟩ := hback.head
      obtain ⟨sealed, length, hfirst, hlength, hout⟩ :=
        exists_decryptLength_frame s.near.channel m
      simp only [Exact, act, hqueue, RotatingKey.parcel, hfirst, hout]
      exact ⟨⟨sealed, length, rfl, by rw [hout], hlength, rfl⟩, ⟨there, hthere⟩, back,
        hannounced length hlength⟩

theorem exact_misfit (h : s.Linked) (body : Bytes) :
    s.Exact (.misfit body) ∧ (s.act (.misfit body)).Linked := by
  by_cases hmisfit : s.near.channel.Misfit body
  · obtain ⟨e, hout⟩ := decryptMessage_misfit hmisfit
    have hact : s.act (.misfit body) = s := by rw [act, if_pos hmisfit, hout]
    rw [hact]
    exact ⟨fun _ => ⟨⟨e, by rw [hout]⟩, hact⟩, h⟩
  · have hact : s.act (.misfit body) = s := if_neg hmisfit
    rw [hact]
    exact ⟨fun hfits => absurd hfits hmisfit, h⟩

theorem exact_message (h : s.Linked) : s.Exact .message ∧ (s.act .message).Linked := by
  obtain ⟨⟨there, hthere⟩, back, hback⟩ := h
  cases hqueue : s.near.queue with
  | nil =>
      simp only [Exact, act, hqueue]
      exact ⟨trivial, ⟨there, hthere⟩, back, hback⟩
  | cons p queue =>
      rw [hqueue] at hback
      obtain ⟨m, rest, rfl, hlength, -, hnext⟩ := hback.head
      simp only [Exact, act, hqueue]
      cases hpending : s.near.channel.pending with
      | none =>
          have hout : s.near.channel.decryptMessage
              ((s.near.channel.receiving.parcel m).frame.drop sealedLengthSize) =
              ⟨.error .outOfTurn, s.near.channel, []⟩ := by
            rw [decryptMessage, hpending]
          simp only [hout]
          exact ⟨fun h => absurd rfl h, ⟨there, hthere⟩, back, hback⟩
      | some length =>
          have hout := decryptMessage_frame hpending (hlength length hpending) hback.atFrame
          simp only [RotatingKey.parcel, hout]
          exact ⟨fun _ => ⟨trivial, rfl, rfl⟩, ⟨there, hthere⟩, rest, hnext⟩

theorem exact_act (h : s.Linked) (action : Action) :
    s.Exact action ∧ (s.act action).Linked := by
  cases action with
  | send message => exact exact_send h message
  | whole => exact exact_whole h
  | length => exact exact_length h
  | misfit body => exact exact_misfit h body
  | message => exact exact_message h

end

theorem inStep_after {s : Line} (h : s.Linked) (m : Move) : s.InStep m ∧ (s.after m).Linked := by
  cases m with
  | near action =>
      exact exact_act h action
  | far action =>
      -- the far end acts as the near end of the swapped line
      have hswap : s.swap.Linked := ⟨h.2, h.1⟩
      obtain ⟨hexact, hthere, hback⟩ := exact_act hswap action
      exact ⟨hexact, hback, hthere⟩

theorem in_step_throughout {a b : Channel} (h : a.Mirrored b) (moves : List Move) :
    Always after InStep (start a b) moves := by
  have hfree : Always after (fun _ _ => True) (start a b) moves := fun _ _ _ _ => trivial
  exact always_of_invariant (fun _ m hs _ => (inStep_after hs m).2)
    (fun _ m hs _ => (inStep_after hs m).1) (linked_start h) hfree

theorem in_step_in_two_parts :
    let message : Bytes := [104, 105]
    let chainingKey : Digest := ⟨List.replicate 32 7, rfl⟩
    let a : Channel := .ofKeys ⟨List.replicate 32 1, rfl⟩ ⟨List.replicate 32 2, rfl⟩ chainingKey
    let b : Channel := .ofKeys ⟨List.replicate 32 2, rfl⟩ ⟨List.replicate 32 1, rfl⟩ chainingKey
    let s := (start a b).run [.near (.send message), .far .length]
    let out := s.far.channel.decryptMessage ((a.sending.frame message).drop sealedLengthSize)
    a.Mirrored b ∧
      (∃ length, s.far.channel.pending = some length ∧ length.toNat = message.length) ∧
      out.result = .ok message ∧ out.state.pending = none ∧
      out.state.receiving = a.sending.advance.advance := by
  intro message chainingKey a b
  have hmirrored : a.Mirrored b := ⟨_, _, chainingKey, rfl, rfl, rfl, rfl, rfl, rfl⟩
  have hfits : message.length ≤ maxMessageSize := by decide
  -- nothing is computed from here on: two mirrored channels, and a message that fits
  clear_value a b message
  intro s out
  have hsent : (start a b).run [.near (.send message)] =
      ⟨⟨{ a with sending := a.sending.advance.advance }, []⟩,
        ⟨b, [a.sending.parcel ⟨message, hfits⟩]⟩⟩ := by
    simp only [run, List.foldl_cons, List.foldl_nil, start, after, act, encrypt_eq a hfits,
      List.nil_append]
    rfl
  have hlength : ((start a b).run [.near (.send message)]).swap.Exact .length :=
    in_step_throughout hmirrored [.near (.send message), .far .length]
      [.near (.send message)] (.far .length) [] rfl
  have hexact : s.swap.Exact .message := in_step_throughout hmirrored
    [.near (.send message), .far .length, .far .message]
    [.near (.send message), .far .length] (.far .message) [] rfl
  have hs : s = (((start a b).run [.near (.send message)]).swap.act .length).swap := rfl
  rw [hsent] at hlength hs
  obtain ⟨sealed, length, hfirst, -, hsize, hpending⟩ := hlength
  have hqueue : s.far.queue = [a.sending.parcel ⟨message, hfits⟩] := by
    simp only [hs, swap, act, hfirst]
  have hset : s.far.channel.pending = some length := by
    rw [hs]
    exact hpending
  simp only [Exact, swap, hqueue] at hexact
  obtain ⟨hresult, hcleared, hkey⟩ := hexact (Option.ne_none_iff_exists'.2 ⟨length, hset⟩)
  exact ⟨hmirrored, ⟨length, hset, hsize⟩, hresult, hcleared, hkey⟩

end Line

end Bolt8
