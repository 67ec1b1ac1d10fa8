import DistriStore.Lib.StreamReader
import DistriStore.Network.Protocol
import Mathlib.Tactic.Ring

/-!
# Frames on a TCP connection (`network/connection.py`)

`PeerConnection.send` writes a message as its msgpack form behind a header of four bytes with the
length; `PeerConnection.receive` reads a header, then as many bytes as it says, and unpacks them.
TCP delivers the bytes in order but in fragments of its own choosing, and may end anywhere.

msgpack comes from outside the repository and is the parameter `Codec`.  What is assumed of it is
`Sendable`, and only for the messages that are sent: they can be packed, and unpacking undoes it.
-/

namespace DistriStore

open Lib
open Lib.Sha256 (beBytes)

/-- 8 MB. -/
def streamLimit : ℕ := 8 * 1024 * 1024

/-- The two functions taken from msgpack; `none` is an exception. -/
structure Codec where
  /-- `msgpack.packb(message, use_bin_type=True)`. -/
  packb : Value → Option Bytes
  /-- `msgpack.unpackb(payload, raw=False)`. -/
  unpackb : Bytes → Option Value

/-! ## Sending and receiving -/

/-- `length.to_bytes(4, 'big')`; `none` is an `OverflowError`. -/
def toBytes4 (length : ℕ) : Option Bytes :=
  if length < 256 ^ 4 then some (beBytes 4 length) else none

/-- `int.from_bytes(header, 'big')`. -/
def fromBytes (header : Bytes) : ℕ := header.foldl (fun n b => n * 256 + b.toNat) 0

/-- What `send` writes to the connection; `none` when it raises before it writes. -/
def send (codec : Codec) (message : Value) : Option Bytes := do
  let payload ← codec.packb message
  let header ← toBytes4 payload.length
  return header ++ payload

/-- `receive`: the next message, or `None` (the value `nil`) when the stream ends, the length is
too large or the payload cannot be unpacked. -/
def receive (codec : Codec) (reader : StreamReader UInt8) : Value × StreamReader UInt8 :=
  match reader.read 4 with
  | (none, reader) => (.nil, reader)
  | (some header, reader) =>
    let length := fromBytes header
    if length > streamLimit then (.nil, reader)
    else match reader.read length with
      | (none, reader) => (.nil, reader)
      | (some payload, reader) => ((codec.unpackb payload).getD .nil, reader)

/-- The results of `n` calls of `receive`, one after the other. -/
def receives (codec : Codec) : ℕ → StreamReader UInt8 → List Value
  | 0, _ => []
  | n + 1, reader =>
    (receive codec reader).1 :: receives codec n (receive codec reader).2

/-- The bytes written by sending messages in order; a `send` that raises has written nothing. -/
def byteStream (codec : Codec) (messages : List Value) : Bytes :=
  messages.flatMap fun message => (send codec message).getD []

/-- The message can be packed into at most `STREAM_LIMIT` bytes, which unpack to it. -/
def Sendable (codec : Codec) (message : Value) : Prop :=
  ∃ payload, codec.packb message = some payload ∧ payload.length ≤ streamLimit ∧
    codec.unpackb payload = some message

/-! ## One frame -/

lemma foldl_beBytes (n v acc : ℕ) :
    (beBytes n v).foldl (fun n b => n * 256 + b.toNat) acc = acc * 256 ^ n + v % 256 ^ n := by
  induction n generalizing acc with
  | zero => simp [beBytes, Nat.mod_one]
  | succ n ih =>
    have hbyte : (UInt8.ofNat (v / 256 ^ n)).toNat = v / 256 ^ n % 256 := by simp
    have hsplit : v % 256 ^ (n + 1) = v / 256 ^ n % 256 * 256 ^ n + v % 256 ^ n := by
      rw [pow_succ, Nat.mod_mul, Nat.add_comm, Nat.mul_comm]
    rw [beBytes, List.foldl_cons, ih, hbyte, hsplit, pow_succ]
    ring

lemma fromBytes_beBytes {length : ℕ} (h : length < 256 ^ 4) :
    fromBytes (beBytes 4 length) = length := by
  rw [fromBytes, foldl_beBytes, Nat.mod_eq_of_lt h, Nat.zero_mul, Nat.zero_add]

/-- A frame is a header of four bytes and a payload of the length in the header. -/
structure IsFrame (codec : Codec) (message : Value) (header payload : Bytes) : Prop where
  length_header : header.length = 4
  fromBytes_header : fromBytes header = payload.length
  length_payload : payload.length ≤ streamLimit
  unpackb : codec.unpackb payload = some message

variable {codec : Codec} {message : Value}

/-- What `send` writes for a sendable message. -/
lemma Sendable.send_eq (h : Sendable codec message) :
    ∃ header payload, send codec message = some (header ++ payload) ∧
      IsFrame codec message header payload := by
  obtain ⟨payload, hpack, hlimit, hunpack⟩ := h
  have hlt : payload.length < 256 ^ 4 := by
    have : streamLimit < 256 ^ 4 := by decide
    omega
  have hheader : toBytes4 payload.length = some (beBytes 4 payload.length) := if_pos hlt
  refine ⟨beBytes 4 payload.length, payload, ?_, rfl, fromBytes_beBytes hlt, hlimit, hunpack⟩
  simp [send, hpack, hheader]

/-- A frame that has arrived in full is received, and nothing behind it is touched. -/
lemma receive_frame {header payload rest : Bytes} (h : IsFrame codec message header payload)
    {reader : StreamReader UInt8} (hr : reader.unread = header ++ payload ++ rest) :
    ∃ reader', receive codec reader = (message, reader') ∧ reader'.unread = rest := by
  rw [List.append_assoc] at hr
  obtain ⟨r₁, hread₁, hr₁⟩ := StreamReader.read_of_unread_eq hr
  obtain ⟨r₂, hread₂, hr₂⟩ := StreamReader.read_of_unread_eq hr₁
  have hlimit : ¬ payload.length > streamLimit := by
    have := h.length_payload
    omega
  rw [h.length_header] at hread₁
  refine ⟨r₂, ?_, hr₂⟩
  simp only [receive, hread₁, h.fromBytes_header, if_neg hlimit, hread₂, h.unpackb,
    Option.getD_some]

/-- A frame of which only a part has arrived is not received, and the part is lost. -/
lemma receive_cut {header payload : Bytes} (h : IsFrame codec message header payload)
    {reader : StreamReader UInt8} (hpre : reader.unread <+: header ++ payload)
    (hcut : reader.unread.length < (header ++ payload).length) :
    ∃ reader', receive codec reader = (.nil, reader') ∧ reader'.unread = [] := by
  by_cases hheader : reader.unread.length < 4
  · refine ⟨⟨[], []⟩, ?_, rfl⟩
    simp only [receive, StreamReader.read_of_length_lt hheader]
  · -- the header is there, so the payload is cut
    obtain ⟨part, hpart⟩ : header <+: reader.unread := by
      refine List.prefix_of_prefix_length_le (List.prefix_append ..) hpre ?_
      rw [h.length_header]
      omega
    obtain ⟨r₁, hread, hr₁⟩ := StreamReader.read_of_unread_eq hpart.symm
    have hlimit : ¬ payload.length > streamLimit := by
      have := h.length_payload
      omega
    have hshort : r₁.unread.length < payload.length := by
      rw [hr₁]
      rw [← hpart] at hcut
      simp only [List.length_append] at hcut
      omega
    rw [h.length_header] at hread
    refine ⟨⟨[], []⟩, ?_, rfl⟩
    simp only [receive, hread, h.fromBytes_header, if_neg hlimit,
      StreamReader.read_of_length_lt hshort]

/-! ## The whole stream -/

/-- At the end of the stream every `receive` returns `None`. -/
lemma receives_of_unread_nil (n : ℕ) {reader : StreamReader UInt8} (h : reader.unread = []) :
    receives codec n reader = List.replicate n .nil := by
  induction n generalizing reader with
  | zero => rfl
  | succ n ih =>
    have hshort : reader.unread.length < 4 := by simp [h]
    have hreceive : receive codec reader = (.nil, ⟨[], []⟩) := by
      simp only [receive, StreamReader.read_of_length_lt hshort]
    rw [receives, hreceive, ih rfl, List.replicate_succ]

lemma byteStream_cons {frame : Bytes} (h : send codec message = some frame)
    (messages : List Value) :
    byteStream codec (message :: messages) = frame ++ byteStream codec messages := by
  simp [byteStream, h]

/-- **Framing.** However the stream is cut into fragments and wherever it ends, the messages whose
frames have arrived in full are received, in order, and after them nothing but `None`. -/
theorem receives_unread {messages : List Value} (hsend : ∀ m ∈ messages, Sendable codec m)
    {reader : StreamReader UInt8} (hpre : reader.unread <+: byteStream codec messages) :
    ∃ j ≤ messages.length,
      (∀ i ≤ messages.length,
        (byteStream codec (messages.take i)).length ≤ reader.unread.length ↔ i ≤ j) ∧
      ∀ n, receives codec (j + n) reader = messages.take j ++ List.replicate n .nil := by
  induction messages generalizing reader with
  | nil =>
    have hnil : reader.unread = [] := List.prefix_nil.1 hpre
    refine ⟨0, le_rfl, fun i hi => ?_, fun n => ?_⟩
    · simpa [byteStream] using hi
    · rw [Nat.zero_add, receives_of_unread_nil n hnil, List.take_nil, List.nil_append]
  | cons message messages ih =>
    obtain ⟨header, payload, hframe, hisFrame⟩ := (hsend message (List.mem_cons_self ..)).send_eq
    rw [byteStream_cons hframe] at hpre
    have hlength : ∀ i, (byteStream codec ((message :: messages).take (i + 1))).length =
        (header ++ payload).length + (byteStream codec (messages.take i)).length := fun i => by
      rw [List.take_succ_cons, byteStream_cons hframe, List.length_append]
    by_cases hall : (header ++ payload).length ≤ reader.unread.length
    · obtain ⟨rest, hrest⟩ := List.prefix_of_prefix_length_le (List.prefix_append ..) hpre hall
      obtain ⟨reader', hreceive, hunread⟩ := receive_frame hisFrame hrest.symm
      have hpre' : reader'.unread <+: byteStream codec messages := by
        rw [← hrest] at hpre
        exact hunread ▸ (List.prefix_append_right_inj _).1 hpre
      have hunreadLength : reader.unread.length =
          (header ++ payload).length + reader'.unread.length := by
        rw [← hrest, hunread, List.length_append]
      obtain ⟨j, hj, hfit, hreceives⟩ :=
        ih (fun m hm => hsend m (List.mem_cons_of_mem _ hm)) hpre'
      refine ⟨j + 1, Nat.succ_le_succ hj, fun i hi => ?_, fun n => ?_⟩
      · cases i with
        | zero => simp [byteStream]
        | succ i =>
          have hfit' := hfit i (Nat.le_of_succ_le_succ hi)
          rw [hlength]
          omega
      · rw [Nat.add_right_comm, receives, hreceive, hreceives, List.take_succ_cons,
          List.cons_append]
    · have hcut : reader.unread.length < (header ++ payload).length := by omega
      have hpart : reader.unread <+: header ++ payload :=
        List.prefix_of_prefix_length_le hpre (List.prefix_append ..) hcut.le
      obtain ⟨reader', hreceive, hunread⟩ := receive_cut hisFrame hpart hcut
      refine ⟨0, Nat.zero_le _, fun i hi => ?_, fun n => ?_⟩
      · cases i with
        | zero => simp [byteStream]
        | succ i =>
          rw [hlength]
          omega
      · cases n with
        | zero => rfl
        | succ n =>
          rw [Nat.zero_add, receives, hreceive, receives_of_unread_nil n hunread]
          rfl

/-- Sending messages in order and receiving whatever prefix of the bytes arrives. -/
theorem receives_of_prefix {messages : List Value} (hsend : ∀ m ∈ messages, Sendable codec m)
    {received : Bytes} (hpre : received <+: byteStream codec messages) {fragments : List Bytes}
    (hfragments : fragments.flatten = received) :
    (∀ m ∈ messages, (send codec m).isSome) ∧
    ∃ j ≤ messages.length,
      (∀ i ≤ messages.length,
        (byteStream codec (messages.take i)).length ≤ received.length ↔ i ≤ j) ∧
      ∀ n, receives codec (j + n) ⟨[], fragments⟩ =
        messages.take j ++ List.replicate n .nil := by
  refine ⟨fun m hm => ?_, ?_⟩
  · obtain ⟨header, payload, hframe, -⟩ := (hsend m hm).send_eq
    rw [hframe]
    rfl
  · subst hfragments
    have hunread : (⟨[], fragments⟩ : StreamReader UInt8).unread <+: byteStream codec messages :=
      hpre
    exact receives_unread hsend hunread

def ping : Value := .dict [(.str "type", .str "PING")]

/-- msgpack on `ping`. -/
def pingCodec : Codec where
  packb
    | .dict [(.str "type", .str "PING")] =>
      some [0x81, 0xa4, 0x74, 0x79, 0x70, 0x65, 0xa4, 0x50, 0x49, 0x4e, 0x47]
    | _ => none
  unpackb payload :=
    if payload = [0x81, 0xa4, 0x74, 0x79, 0x70, 0x65, 0xa4, 0x50, 0x49, 0x4e, 0x47] then some ping
    else none

/-- The second of two messages is cut in its header. -/
theorem receives_of_prefix_ping :
    receives pingCodec 3 ⟨[], [[0, 0], [0, 11, 0x81, 0xa4, 0x74, 0x79], [],
      [0x70, 0x65, 0xa4, 0x50, 0x49, 0x4e, 0x47, 0], [0]]⟩ = [ping, .nil, .nil] := by
  have hsend : ∀ m ∈ [ping, ping], Sendable pingCodec m := by
    intro m hm
    obtain rfl : m = ping := by simpa using hm
    exact ⟨_, rfl, by decide, rfl⟩
  have hpre : [[0, 0], [0, 11, 0x81, 0xa4, 0x74, 0x79], [],
      [0x70, 0x65, 0xa4, 0x50, 0x49, 0x4e, 0x47, 0], [0]].flatten <+:
        byteStream pingCodec [ping, ping] := by decide
  obtain ⟨-, j, -, hfit, hreceives⟩ := receives_of_prefix hsend hpre rfl
  have h₁ := (hfit 1 (by decide)).1 (by decide)
  have h₂ := mt (hfit 2 (by decide)).2 (by decide)
  obtain rfl : j = 1 := by omega
  exact hreceives 2

end DistriStore
