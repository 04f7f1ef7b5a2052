import MyDemo.Ijkmedia.PacketQueue

/-!
# The decoder thread

`decoder_decode_frame` of `ff_ffplay.c` next to the thread that reads packets, for one stream. A step of the system is
one that the other thread cannot divide: a call to the packet queue, or a read of `serial`. The codec is known by the
packets that it got; its answers come with the steps.
-/

namespace MyDemo.Ijkmedia

variable {β : Type*}

def AVERROR_EAGAIN : ℤ := -11

def AVERROR_EOF : ℤ := -541478725

inductive AVMediaType where
  | AVMEDIA_TYPE_VIDEO
  | AVMEDIA_TYPE_AUDIO
  | AVMEDIA_TYPE_SUBTITLE
  deriving DecidableEq, Repr

/-- `avctx` has the packets that the codec got after `avcodec_flush_buffers`, and `sub` is the serial of the packet that
the last subtitle came from. Packets come with their serials. -/
structure Decoder (β : Type*) where
  pkt : MyAVPacketList β
  pkt_serial : ℕ
  finished : ℕ
  packet_pending : Bool
  avctx : List (MyAVPacketList β)
  sub : ℕ
  deriving DecidableEq, Repr

/-- Where `decoder_decode_frame` is, with its local variables. -/
inductive DecodePc (β : Type*) where
  /-- It has returned. -/
  | returned (ret : ℤ)
  /-- The begin of the loop. -/
  | top (ret : ℤ)
  | receive (ret : ℤ)
  | fetch (ret : ℤ)
  /-- `packet_queue_get` that does not block. -/
  | poll (ret : ℤ)
  | await (ret : ℤ)
  /-- The condition of the inner loop. -/
  | check (ret : ℤ) (pkt : MyAVPacketList β)
  | handle (ret : ℤ) (pkt : MyAVPacketList β)
  deriving DecidableEq, Repr

structure CodecAnswer where
  ret : ℤ
  got_frame : Bool
  deriving DecidableEq, Repr

/-- What becomes of a packet that the decoder has taken. -/
inductive Fate where
  | handled
  /-- It is released unread, after the end of its serial. -/
  | released
  deriving DecidableEq, Repr

/-- The reader is `seeking` after it has flushed the queue for a seek, when its next call puts `flush_pkt`. `queued` are
the packets that the queue took, `used` those that the decoder is done with, and `ended` the serials that were taken for
finished. -/
structure Stream (β : Type*) where
  queue : PacketQueue β
  seeking : Bool
  d : Decoder β
  pc : DecodePc β
  queued : List (MyAVPacketList β)
  used : List (MyAVPacketList β × Fate)
  ended : List ℕ
  deriving DecidableEq, Repr

namespace Stream

def decoder_init : Decoder β := ⟨⟨.blank, 0⟩, 0, 0, false, [], 0⟩

section

variable (sizeof_pkt : ℤ)

/-- The history of what has been put. -/
def putPacket (s : Stream β) (pkt : AVPacket β) (allocated : Bool) : Option (Stream β) :=
  match s.queue.packet_queue_put sizeof_pkt pkt allocated with
  | none => none
  | some (queue, ret, _) =>
      some { s with queue := queue, queued := if ret = 0 then s.queued ++ [⟨pkt, queue.serial⟩] else s.queued }

/-- `decoder_start` -/
def decoder_start (allocated : Bool) : Option (Stream β) :=
  match PacketQueue.packet_queue_init.packet_queue_start sizeof_pkt allocated with
  | none => none
  | some (queue, ret) =>
      some ⟨queue, false, decoder_init, .returned 0, if ret = 0 then [⟨.flush_pkt, queue.serial⟩] else [], [],
        []⟩

inductive ReaderCall (β : Type*) where
  | put (pkt : AVPacket β)
  | seek
  deriving DecidableEq, Repr

def readStep (s : Stream β) (call : ReaderCall β) (allocated : Bool) : Option (Stream β) :=
  if s.seeking then (s.putPacket sizeof_pkt .flush_pkt allocated).map fun s => { s with seeking := false }
  else
    match call with
    | .put pkt => s.putPacket sizeof_pkt pkt allocated
    | .seek => s.queue.packet_queue_flush.map fun r => { s with queue := r.1, seeking := true }

section

variable (codec_type : AVMediaType) (packet_buffering : Bool)

/-- What follows the call that asks the codec for a frame. -/
def received (s : Stream β) (ret : ℤ) : Stream β :=
  if ret = AVERROR_EOF then
    { s with
      d := { s.d with finished := s.d.pkt_serial, avctx := [] }
      pc := .returned 0
      ended := s.ended ++ [s.d.pkt_serial] }
  else if ret ≥ 0 then { s with pc := .returned 1 }
  else if ret = AVERROR_EAGAIN then { s with pc := .fetch ret }
  else { s with pc := .receive ret }

/-- The end of `packet_queue_get_or_buffering`. -/
def fetched (s : Stream β) (ret : ℤ) (node : MyAVPacketList β) : Stream β :=
  let s := { s with d := { s.d with pkt_serial := node.serial } }
  if packet_buffering ∧ s.d.finished = s.d.pkt_serial then
    { s with pc := .poll ret, used := s.used ++ [(node, .released)] }
  else { s with pc := .check ret node }

def fetchStep (s : Stream β) (ret : ℤ) (block : Bool) : Option (Stream β) :=
  match s.queue.packet_queue_get sizeof_pkt block with
  | none => none
  | some (queue, .pkt node) => some (fetched packet_buffering { s with queue := queue } ret node)
  | some (queue, .ret n) => some { s with queue := queue, pc := if n < 0 then .returned (-1) else .await ret }
  | some (queue, .wait) => some { s with queue := queue }

def handleFlush (s : Stream β) (ret : ℤ) (pkt : MyAVPacketList β) : Stream β :=
  { s with d := { s.d with avctx := [], finished := 0 }, pc := .top ret, used := s.used ++ [(pkt, .handled)] }

def handleSubtitle (s : Stream β) (pkt : MyAVPacketList β) (a : CodecAnswer) : Stream β :=
  let s := { s with d := { s.d with
    avctx := s.d.avctx ++ [pkt]
    sub := if a.ret ≥ 0 ∧ a.got_frame then pkt.serial else s.d.sub } }
  if a.ret < 0 then { s with pc := .top AVERROR_EAGAIN, used := s.used ++ [(pkt, .handled)] }
  else if a.got_frame && pkt.pkt.data.isNull then
    { s with d := { s.d with packet_pending := true, pkt := pkt }, pc := .top 0 }
  else
    { s with
      pc := .top (if a.got_frame then 0 else if pkt.pkt.data.isNull then AVERROR_EOF else AVERROR_EAGAIN)
      used := s.used ++ [(pkt, .handled)] }

def handleFrame (s : Stream β) (ret : ℤ) (pkt : MyAVPacketList β) (a : CodecAnswer) : Stream β :=
  if a.ret = AVERROR_EAGAIN then { s with d := { s.d with packet_pending := true, pkt := pkt }, pc := .top ret }
  else { s with d := { s.d with avctx := s.d.avctx ++ [pkt] }, pc := .top ret, used := s.used ++ [(pkt, .handled)] }

def decodeStep (s : Stream β) (a : CodecAnswer) : Option (Stream β) :=
  match s.pc with
  | .returned _ => some { s with pc := .top AVERROR_EAGAIN }
  | .top ret => some { s with pc := if s.queue.serial = s.d.pkt_serial then .receive ret else .fetch ret }
  | .receive ret =>
      if s.queue.abort_request then some { s with pc := .returned (-1) }
      else
        match codec_type with
        | .AVMEDIA_TYPE_SUBTITLE => some (s.received ret)
        | _ => some (s.received a.ret)
  | .fetch ret =>
      if s.d.packet_pending then some { s with d := { s.d with packet_pending := false }, pc := .check ret s.d.pkt }
      else some { s with pc := if packet_buffering then .poll ret else .await ret }
  | .poll ret => s.fetchStep sizeof_pkt packet_buffering ret false
  | .await ret => s.fetchStep sizeof_pkt packet_buffering ret true
  | .check ret pkt => some { s with pc := if s.queue.serial ≠ s.d.pkt_serial then .fetch ret else .handle ret pkt }
  | .handle ret pkt =>
      if pkt.pkt.isFlush then some (s.handleFlush ret pkt)
      else
        match codec_type with
        | .AVMEDIA_TYPE_SUBTITLE => some (s.handleSubtitle pkt a)
        | _ => some (s.handleFrame ret pkt a)

/-! ## Interleavings -/

inductive Event (β : Type*) where
  | read (call : ReaderCall β) (allocated : Bool)
  | decode (answer : CodecAnswer)
  /-- The thread that called the decoder takes the stream for finished. -/
  | finish
  | abort
  deriving DecidableEq, Repr

def step (s : Stream β) : Event β → Option (Stream β)
  | .read call allocated => s.readStep sizeof_pkt call allocated
  | .decode answer => s.decodeStep sizeof_pkt codec_type packet_buffering answer
  | .finish =>
      match s.pc with
      | .returned _ =>
          some { s with d := { s.d with finished := s.d.pkt_serial }, ended := s.ended ++ [s.d.pkt_serial] }
      | _ => some s
  | .abort => some { s with queue := s.queue.packet_queue_abort }

end

end

end Stream

end MyDemo.Ijkmedia
