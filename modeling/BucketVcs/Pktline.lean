import Mathlib.Algebra.Order.Group.Nat

/-! pkt-line frames and the side-band writer: four hex digits that count themselves, three
reserved lengths, and long payloads cut into frames of the greatest length. -/

namespace BucketVcs.Pktline

open List Option

abbrev Bytes := List UInt8

def maxPayload : Nat := 65516

inductive Token where
  | data (payload : Bytes)
  | flush
  | delim
  | responseEnd
  deriving DecidableEq, Repr

inductive ReadError where
  | eof
  | shortHeader
  | malformedHex (hdr : Bytes)
  | invalidLength (frameLen : Nat)
  | exceedsMax (frameLen : Nat)
  | shortPayload
  deriving DecidableEq, Repr

inductive WriteError where
  | payloadSize (size : Nat)
  | invalidSideband (band : UInt8)
  deriving DecidableEq, Repr

/-- `fromHexChar` of `hex.Decode`: both cases are read. -/
def hexValue (c : UInt8) : Option Nat :=
  if 0x30 ≤ c ∧ c ≤ 0x39 then some (c.toNat - 0x30)
  else if 0x61 ≤ c ∧ c ≤ 0x66 then some (c.toNat - 0x61 + 10)
  else if 0x41 ≤ c ∧ c ≤ 0x46 then some (c.toNat - 0x41 + 10)
  else none

def frameLength (a b c d : UInt8) : Option Nat := do
  let a ← hexValue a
  let b ← hexValue b
  let c ← hexValue c
  let d ← hexValue d
  return a * 4096 + b * 256 + c * 16 + d

/-- `Reader.Read` on what the stream still holds: the answer, and what it leaves unread. -/
def read : Bytes → Except ReadError Token × Bytes
  | [] => (.error .eof, [])
  | a :: b :: c :: d :: rest =>
    match frameLength a b c d with
    | none => (.error (.malformedHex [a, b, c, d]), rest)
    | some 0 => (.ok .flush, rest)
    | some 1 => (.ok .delim, rest)
    | some 2 => (.ok .responseEnd, rest)
    | some frameLen =>
      if frameLen < 4 then (.error (.invalidLength frameLen), rest)
      else if maxPayload + 4 < frameLen then (.error (.exceedsMax frameLen), rest)
      else if rest.length < frameLen - 4 then (.error .shortPayload, [])
      else (.ok (.data (rest.take (frameLen - 4))), rest.drop (frameLen - 4))
  | _ => (.error .shortHeader, [])

def reads : Nat → Bytes → List (Except ReadError Token)
  | 0, _ => []
  | count + 1, bytes => (read bytes).1 :: reads count (read bytes).2

def hexNibble (n : Nat) : UInt8 := if n < 10 then 0x30 + UInt8.ofNat n else 0x61 + UInt8.ofNat (n - 10)

def header (frameLen : Nat) : Bytes :=
  [hexNibble (frameLen / 4096), hexNibble (frameLen / 256 % 16), hexNibble (frameLen / 16 % 16),
    hexNibble (frameLen % 16)]

def writePacket (p : Bytes) : Except WriteError Bytes :=
  if maxPayload < p.length then .error (.payloadSize p.length) else .ok (header (p.length + 4) ++ p)

def write : Token → Except WriteError Bytes
  | .data payload => writePacket payload
  | .flush => .ok [0x30, 0x30, 0x30, 0x30]
  | .delim => .ok [0x30, 0x30, 0x30, 0x31]
  | .responseEnd => .ok [0x30, 0x30, 0x30, 0x32]

def writeAll : List Token → Except WriteError Bytes
  | [] => .ok []
  | token :: tokens => do return (← write token) ++ (← writeAll tokens)

/-! ### The side-band writer -/

def sidebandPayloadMax : Nat := maxPayload - 1

/-- The loop of `SidebandWriter.write`; `out` is what the stream was given so far. -/
def chunkLoop (band : UInt8) (p : Bytes) (written : Nat) (out : Bytes) :
    Nat × Bytes × Option WriteError :=
  if _ : p = [] then (written, out, none)
  else
    let chunk := p.take sidebandPayloadMax
    match writePacket (band :: chunk) with
    | .error e => (written, out, some e)
    | .ok frame => chunkLoop band (p.drop chunk.length) (written + chunk.length) (out ++ frame)
termination_by p.length
decreasing_by
  have : 0 < p.length := List.length_pos_iff.mpr ‹¬ p = []›
  simp only [List.length_drop, List.length_take, sidebandPayloadMax, maxPayload]
  omega

def sidebandWrite (band : UInt8) (p out : Bytes) : Nat × Bytes × Option WriteError :=
  if band < 1 ∨ 3 < band then (0, out, some (.invalidSideband band)) else chunkLoop band p 0 out

/-- A caller's writes, each on its band, up to the first that fails. -/
def sidebandSession : List (UInt8 × Bytes) → Bytes → Bytes × Option WriteError
  | [], out => (out, none)
  | (band, p) :: calls, out =>
    match sidebandWrite band p out with
    | (_, out, none) => sidebandSession calls out
    | (_, out, some e) => (out, some e)

def onBand (band : UInt8) : Token → Bytes
  | .data (b :: chunk) => if b = band then chunk else []
  | _ => []

/-! ### Frames read back -/

theorem hexValue_hexNibble : ∀ n < 16, hexValue (hexNibble n) = some n := by
  decide

theorem frameLength_header {n : Nat} (small : n < 65536) :
    frameLength (hexNibble (n / 4096)) (hexNibble (n / 256 % 16)) (hexNibble (n / 16 % 16))
      (hexNibble (n % 16)) = some n := by
  have first := hexValue_hexNibble (n / 4096) (by omega)
  have second := hexValue_hexNibble (n / 256 % 16) (by omega)
  have third := hexValue_hexNibble (n / 16 % 16) (by omega)
  have fourth := hexValue_hexNibble (n % 16) (by omega)
  simp only [frameLength, first, second, third, fourth, bind_eq_bind, bind_some,
    Option.pure_def, some.injEq]
  omega

def Legal : Token → Prop
  | .data payload => payload.length ≤ maxPayload
  | _ => True

theorem read_packet {p : Bytes} (legal : p.length ≤ maxPayload) (rest : Bytes) :
    read (header (p.length + 4) ++ p ++ rest) = (.ok (.data p), rest) := by
  have small : p.length + 4 < 65536 := by unfold maxPayload at legal; omega
  have long : ¬ (p ++ rest).length < p.length + 4 - 4 := by simp
  have under : ¬ maxPayload + 4 < p.length + 4 := by omega
  simp only [header, cons_append, read, frameLength_header small]
  rw [if_neg under]
  simp

variable {token : Token}

theorem read_write (legal : Legal token) :
    ∃ frame, write token = .ok frame ∧ ∀ rest, read (frame ++ rest) = (.ok token, rest) := by
  cases token with
  | data p => exact ⟨_, if_neg (not_lt.mpr legal), read_packet legal⟩
  | flush | delim | responseEnd => exact ⟨_, rfl, fun _ => rfl⟩

variable {tokens : List Token}

theorem writeAll_cons {frame rest : Bytes}
    (one : write token = .ok frame) (others : writeAll tokens = .ok rest) :
    writeAll (token :: tokens) = .ok (frame ++ rest) := by
  simp only [writeAll, one, others, bind, Except.bind, pure, Except.pure]

theorem reads_writeAll (legal : ∀ token ∈ tokens, Legal token) :
    ∃ bytes, writeAll tokens = .ok bytes ∧
      reads (tokens.length + 1) bytes = tokens.map .ok ++ [.error .eof] := by
  induction tokens with
  | nil => exact ⟨[], rfl, rfl⟩
  | cons token tokens ih =>
    obtain ⟨frame, written, back⟩ := read_write (legal token (by simp))
    obtain ⟨bytes, rest, readBack⟩ := ih fun t mem => legal t (by simp [mem])
    refine ⟨frame ++ bytes, writeAll_cons written rest, ?_⟩
    rw [reads, back]
    simp [readBack]

theorem writeAll_append {first second : List Token} {before after : Bytes}
    (one : writeAll first = .ok before) (two : writeAll second = .ok after) :
    writeAll (first ++ second) = .ok (before ++ after) := by
  induction first generalizing before with
  | nil =>
    cases one
    exact two
  | cons token first ih =>
    cases written : write token with
    | error e => simp [writeAll, written, bind, Except.bind] at one
    | ok frame =>
      cases rest : writeAll first with
      | error e => simp [writeAll, written, rest, bind, Except.bind] at one
      | ok bytes =>
        simp only [writeAll, written, rest, bind, Except.bind, pure, Except.pure,
          Except.ok.injEq] at one
        rw [cons_append, writeAll_cons written (ih rest), ← one, append_assoc]

/-! ### Side-band frames -/

def OnSideband (token : Token) : Prop :=
  ∃ band chunk, token = .data (band :: chunk) ∧ 1 ≤ band ∧ band ≤ 3 ∧ 0 < chunk.length ∧
    chunk.length ≤ sidebandPayloadMax

theorem OnSideband.legal (frame : OnSideband token) : Legal token := by
  obtain ⟨band, chunk, rfl, -, -, -, short⟩ := frame
  simp only [Legal, length_cons]
  simp only [sidebandPayloadMax, maxPayload] at short ⊢
  omega

def carried (band : UInt8) (tokens : List Token) : Bytes := (tokens.map (onBand band)).flatten

@[simp] theorem carried_append (band : UInt8) (first second : List Token) :
    carried band (first ++ second) = carried band first ++ carried band second := by
  simp [carried]

theorem chunkLoop_frames {band : UInt8} (low : 1 ≤ band) (high : band ≤ 3) (p : Bytes)
    (written : Nat) (out : Bytes) :
    ∃ tokens frames, chunkLoop band p written out = (written + p.length, out ++ frames, none) ∧
      writeAll tokens = .ok frames ∧ (∀ token ∈ tokens, OnSideband token) ∧
      ∀ b, carried b tokens = if b = band then p else [] := by
  by_cases empty : p = []
  · subst empty
    exact ⟨[], [], by simp [chunkLoop], rfl, by simp, by simp [carried]⟩
  · have left : 0 < p.length := length_pos_iff.mpr empty
    have cut : (p.take sidebandPayloadMax).length ≤ sidebandPayloadMax := length_take_le ..
    have moves : 0 < (p.take sidebandPayloadMax).length := by
      simp only [length_take, sidebandPayloadMax, maxPayload]
      omega
    have chunk : OnSideband (.data (band :: p.take sidebandPayloadMax)) :=
      ⟨band, _, rfl, low, high, moves, cut⟩
    obtain ⟨frame, one, -⟩ := read_write chunk.legal
    obtain ⟨tokens, frames, loop, rest, bands, carries⟩ := chunkLoop_frames low high
      (p.drop (p.take sidebandPayloadMax).length) (written + (p.take sidebandPayloadMax).length)
      (out ++ frame)
    have shrinks : p.drop (p.take sidebandPayloadMax).length = p.drop sidebandPayloadMax := by
      rcases Nat.le_total sidebandPayloadMax p.length with long | short
      · rw [length_take, min_eq_left long]
      · rw [take_of_length_le short, drop_of_length_le short, drop_length]
    refine ⟨_ :: tokens, frame ++ frames, ?_, writeAll_cons one rest, ?_, ?_⟩
    · rw [chunkLoop, dif_neg empty]
      change writePacket _ = _ at one
      have within : (p.take sidebandPayloadMax).length ≤ p.length := length_take_le' ..
      simp only [one, loop, append_assoc, Prod.mk.injEq, and_true, length_drop]
      omega
    · rintro token (_ | ⟨_, mem⟩)
      · exact chunk
      · exact bands token mem
    · intro b
      change onBand b _ ++ carried b tokens = _
      rw [carries, shrinks]
      by_cases same : b = band
      · simp [onBand, same]
      · simp [onBand, same, Ne.symm same]
termination_by p.length
decreasing_by
  rw [List.length_drop]
  omega

theorem session_frames {calls : List (UInt8 × Bytes)}
    (valid : ∀ call ∈ calls, 1 ≤ call.1 ∧ call.1 ≤ 3) (out : Bytes) :
    ∃ tokens frames, sidebandSession calls out = (out ++ frames, none) ∧
      writeAll tokens = .ok frames ∧ (∀ token ∈ tokens, OnSideband token) ∧
      ∀ b, carried b tokens = ((calls.filter (·.1 = b)).map (·.2)).flatten := by
  induction calls generalizing out with
  | nil => exact ⟨[], [], by simp [sidebandSession], rfl, by simp, by simp [carried]⟩
  | cons call calls ih =>
    obtain ⟨low, high⟩ := valid call (by simp)
    have known : ¬ (call.1 < 1 ∨ 3 < call.1) := by
      rw [not_or]
      exact ⟨UInt8.not_lt.mpr low, UInt8.not_lt.mpr high⟩
    obtain ⟨first, written, loop, one, framed, carries⟩ := chunkLoop_frames low high call.2 0 out
    obtain ⟨second, more, session, two, bands, rest⟩ :=
      ih (fun call mem => valid call (by simp [mem])) (out ++ written)
    refine ⟨first ++ second, written ++ more, ?_, writeAll_append one two, ?_, ?_⟩
    · simp only [sidebandSession, sidebandWrite, if_neg known, loop, session, append_assoc]
    · intro token mem
      exact (mem_append.mp mem).elim (framed token) (bands token)
    · intro b
      rw [carried_append, carries, rest]
      by_cases same : call.1 = b
      · simp [same]
      · simp [same, Ne.symm same]

/-! ### What a call consumes -/

def declared : Bytes → Nat
  | a :: b :: c :: d :: _ => (frameLength a b c d).getD 0
  | _ => 0

theorem read_consumes (bytes : Bytes) :
    ∃ taken, (read bytes).2 = bytes.drop taken ∧ taken ≤ max 4 (declared bytes) := by
  fun_cases read bytes with
  | case8 a b c d rest frameLen _ _ _ length least _ short =>
    refine ⟨rest.length + 4, by simp, le_trans ?_ (le_max_right ..)⟩
    simp only [declared, length, getD_some]
    omega
  | case9 a b c d rest frameLen _ _ _ length least _ _ =>
    refine ⟨frameLen - 4 + 4, by simp, le_trans ?_ (le_max_right ..)⟩
    simp only [declared, length, getD_some]
    omega
  | case10 _ _ short =>
    refine ⟨4, (drop_of_length_le ?_).symm, le_max_left ..⟩
    by_contra long
    obtain ⟨a, b, c, d, rest, cut⟩ : ∃ a b c d rest, bytes = a :: b :: c :: d :: rest := by
      rcases bytes with _ | ⟨a, _ | ⟨b, _ | ⟨c, _ | ⟨d, rest⟩⟩⟩⟩ <;> simp at long ⊢
    exact short a b c d rest cut
  | _ => exact ⟨4, by simp, le_max_left ..⟩

/-- Tokens of legal length are written and read back, then the input ends; what goes through
the side-band writer, in any split into calls, is what the frames of its band carry; and a
call of `Read` takes no more than the frame declares. -/
theorem pktline_round_trip {tokens : List Token} (legal : ∀ token ∈ tokens, Legal token)
    {calls : List (UInt8 × Bytes)} (valid : ∀ call ∈ calls, 1 ≤ call.1 ∧ call.1 ≤ 3)
    (bytes : Bytes) :
    (∃ wire, writeAll tokens = .ok wire ∧
      reads (tokens.length + 1) wire = tokens.map .ok ++ [.error .eof]) ∧
    (∃ frames wire, sidebandSession calls [] = (wire, none) ∧
      reads (frames.length + 1) wire = frames.map .ok ++ [.error .eof] ∧
      (∀ frame ∈ frames, OnSideband frame) ∧
      ∀ band, carried band frames = ((calls.filter (·.1 = band)).map (·.2)).flatten) ∧
    ∃ taken, (read bytes).2 = bytes.drop taken ∧ taken ≤ max 4 (declared bytes) := by
  refine ⟨reads_writeAll legal, ?_, read_consumes bytes⟩
  obtain ⟨frames, wire, session, written, framed, carries⟩ := session_frames valid []
  obtain ⟨same, writtenSame, back⟩ := reads_writeAll fun token mem => (framed token mem).legal
  cases written.symm.trans writtenSame
  exact ⟨frames, wire, session, back, framed, carries⟩

theorem empty_packet_round_trip :
    (∃ wire, writeAll [.data [], .flush] = .ok wire ∧
      reads 3 wire = [.ok (.data []), .ok .flush, .error .eof]) ∧
    ∃ frames wire, sidebandSession [(1, [65]), (2, [66]), (1, [67])] [] = (wire, none) ∧
      reads (frames.length + 1) wire = frames.map .ok ++ [.error .eof] ∧
      carried 1 frames = [65, 67] := by
  obtain ⟨tokens, ⟨frames, wire, session, back, -, carries⟩, -⟩ :=
    @pktline_round_trip [.data [], .flush] (by simp [Legal]) [(1, [65]), (2, [66]), (1, [67])]
      (by decide) []
  exact ⟨tokens, frames, wire, session, back, carries 1⟩

end BucketVcs.Pktline
