import DericRpc.Lib.Simulation
import DericRpc.Segments
import Mathlib.Logic.Function.Basic

/-! Every caller of sendData on a connection fills the same m_sendBuffer, and no mutex is held
meanwhile. Here sendData is cut at the lines that touch the buffer, and any number of callers take
them in any order. Two of them inside one line have no meaning in C++, and are not here. -/
namespace DericRpc.SendBuffer
open ByteString Common Connection Framing Lts Simulation
variable {T : Type} [DecidableEq T]

/-- Out of sendData with its result, or before one of its lines with the message. -/
inductive Pc where
  | out (res : Int)
  | resize (message : Bytes)
  | serialerTo (message : Bytes)
  | memcpy (message : Bytes)
  | send (message : Bytes)

structure Sys (T : Type) where
  conn : TcpIoConnection
  pc : T → Pc := fun _ => .out 0
  written : Bytes := []

inductive Act (T : Type) where
  | sendData (t : T) (data : Bytes) (len : Int)
  /-- `sent` is the kernel's answer where the line is send. -/
  | next (t : T) (sent : Option Nat)

def Sys.goto (u : Sys T) (t : T) (p : Pc) : Sys T := { u with pc := Function.update u.pc t p }

def Sys.fill (u : Sys T) (buffer : Bytes) : Sys T :=
  { u with conn := { u.conn with sendBuffer := buffer } }

/-- `data` is good for `len` bytes. -/
def Sys.enter (u : Sys T) (t : T) (data : Bytes) (len : Int) : Option (Sys T) :=
  if data.length < len then none
  else if u.conn.state ≠ .started ∨ u.conn.socketFd < 0 then some (u.goto t (.out (-1)))
  else if len ≤ 0 then some (u.goto t (.out (-1)))
  else if intMax < tcpHeaderSize + len then none
  else some (u.goto t (.resize (data.take len.toNat)))

/-- A line that would go beyond the vector has no step. -/
def next (u : Sys T) (t : T) (sent : Option Nat) : Option (Sys T) :=
  let buffer := u.conn.sendBuffer
  match u.pc t with
  | .out _ => none
  | .resize m =>
    some ((u.fill (resize buffer (tcpHeaderSize + m.length))).goto t (.serialerTo m))
  | .serialerTo m =>
    if tcpHeaderSize ≤ buffer.length then
      some ((u.fill (TcpHeader.serialerTo ⟨0, UInt32.ofNat m.length⟩ buffer)).goto t (.memcpy m))
    else none
  | .memcpy m =>
    if tcpHeaderSize + m.length ≤ buffer.length then
      some ((u.fill (overwrite buffer tcpHeaderSize m)).goto t (.send m))
    else none
  | .send m =>
    if tcpHeaderSize + m.length ≤ buffer.length then
      match sent with
      | none => some (u.goto t (.out (-1)))
      | some n =>
        if n ≤ tcpHeaderSize + m.length then
          some ({ u with written := u.written ++ buffer.take n }.goto t (.out (toInt n)))
        else none
    else none

def step (u : Sys T) : Act T → Option (Sys T)
  | .sendData t data len =>
    match u.pc t with
    | .out _ => u.enter t data len
    | _ => none
  | .next t sent => next u t sent

def Pc.message : Pc → Option Bytes
  | .out _ => none
  | .resize m | .serialerTo m | .memcpy m | .send m => some m

def header (m : Bytes) : Bytes := tcpHeaderMagic :: beBytes 4 m.length

/-- What a caller finds in the buffer that nobody else has filled with another message. -/
def Filled (buffer : Bytes) : Pc → Prop
  | .out _ | .resize _ => True
  | .serialerTo m => buffer.length = tcpHeaderSize + m.length
  | .memcpy m => buffer.length = tcpHeaderSize + m.length ∧ buffer.take tcpHeaderSize = header m
  | .send m => buffer = frame m

def Fits (m : Bytes) : Prop := 1 ≤ m.length ∧ m.length ≤ maxMessage

variable {u v w : Sys T} {s t : T} {p : Pc} {a b m buffer data : Bytes} {n : Nat} {len res : Int}

@[simp] theorem header_length (m : Bytes) : (header m).length = tcpHeaderSize := by
  simp [header, tcpHeaderSize]

theorem frame_eq (m : Bytes) : frame m = header m ++ m := rfl

theorem Fits.ofNat (h : Fits m) : (UInt32.ofNat m.length).toNat = m.length := by
  have hmax : m.length ≤ 2 ^ 31 - 1 - 5 := h.2
  exact UInt32.toNat_ofNat_of_lt' (by simp only [UInt32.size]; omega)

theorem message_fits (hlen : len ≤ data.length) (hpos : 0 < len)
    (hmax : tcpHeaderSize + len ≤ intMax) :
    (data.take len.toNat).length = len.toNat ∧ Fits (data.take len.toNat) := by
  have hlength : (data.take len.toNat).length = len.toNat := List.length_take_of_le (by omega)
  simp only [intMax, tcpHeaderSize] at hmax
  refine ⟨hlength, by omega, ?_⟩
  simp only [hlength, maxMessage, tcpHeaderSize]
  omega

theorem serialerTo_header (h : Fits m) (hb : tcpHeaderSize ≤ buffer.length) :
    TcpHeader.serialerTo ⟨0, UInt32.ofNat m.length⟩ buffer =
      header m ++ buffer.drop tcpHeaderSize := by
  rw [serialerTo_eq _ _ hb, h.ofNat]
  rfl

theorem resize_same (h : buffer.length = n) : resize buffer n = buffer := by
  simp [resize, h, List.take_of_length_le h.le]

theorem filled_out (h : p.message = none) : Filled buffer p := by
  cases p <;> trivial

/-- The three lines, with another caller of the same message at any place. -/
theorem Filled.resize (h : Filled buffer p) (hp : p.message = some m) :
    Filled (ByteString.resize buffer (tcpHeaderSize + m.length)) p := by
  cases p with
  | out res => cases hp
  | resize m' => trivial
  | serialerTo m' =>
    obtain rfl := Option.some.inj hp
    exact resize_length ..
  | memcpy m' =>
    obtain rfl := Option.some.inj hp
    rwa [resize_same h.1]
  | send m' =>
    obtain rfl := Option.some.inj hp
    have hframe : buffer = frame m' := h
    rwa [resize_same (hframe ▸ frame_length m')]

theorem Filled.serialerTo (h : Filled buffer p) (hp : p.message = some m)
    (hb : buffer.length = tcpHeaderSize + m.length) :
    Filled (header m ++ buffer.drop tcpHeaderSize) p := by
  have hlen : (header m ++ buffer.drop tcpHeaderSize).length = tcpHeaderSize + m.length := by
    simp [hb]
  cases p with
  | out res => cases hp
  | resize m' => trivial
  | serialerTo m' =>
    obtain rfl := Option.some.inj hp
    exact hlen
  | memcpy m' =>
    obtain rfl := Option.some.inj hp
    exact ⟨hlen, List.take_left' (header_length m')⟩
  | send m' =>
    obtain rfl := Option.some.inj hp
    have hframe : buffer = frame m' := h
    rw [hframe, frame_eq, List.drop_left' (header_length m')]
    rfl

theorem filled_frame (hp : p.message = some m) : Filled (frame m) p := by
  cases p with
  | out res => cases hp
  | resize m' => trivial
  | serialerTo m' =>
    obtain rfl := Option.some.inj hp
    exact frame_length m'
  | memcpy m' =>
    obtain rfl := Option.some.inj hp
    exact ⟨frame_length m', List.take_left' (header_length m')⟩
  | send m' =>
    obtain rfl := Option.some.inj hp
    rfl

theorem memcpy_frame (h : Filled buffer (.memcpy m)) :
    overwrite buffer tcpHeaderSize m = frame m := by
  rw [overwrite, h.2, ← h.1, List.drop_length, List.append_nil]
  rfl

@[simp] theorem goto_pc : (u.goto t p).pc t = p := Function.update_self ..

theorem goto_pc_of_ne (h : s ≠ t) : (u.goto t p).pc s = u.pc s := Function.update_of_ne h ..

@[simp] theorem goto_conn : (u.goto t p).conn = u.conn := rfl

@[simp] theorem goto_written : (u.goto t p).written = u.written := rfl

omit [DecidableEq T] in
@[simp] theorem fill_pc : (u.fill buffer).pc = u.pc := rfl

omit [DecidableEq T] in
@[simp] theorem fill_written : (u.fill buffer).written = u.written := rfl

omit [DecidableEq T] in
@[simp] theorem fill_sendBuffer : (u.fill buffer).conn.sendBuffer = buffer := rfl

theorem goto_fill_goto {p' : Pc} {buffer' : Bytes} :
    (((u.fill buffer).goto t p).fill buffer').goto t p' = (u.fill buffer').goto t p' := by
  simp [Sys.goto, Sys.fill]

/-! The lines of one caller, from where it is to its send. -/

theorem memcpy_run (sent : Option Nat) (ht : u.pc t = .memcpy m)
    (h : Filled u.conn.sendBuffer (.memcpy m)) :
    run step u (List.replicate 1 (.next t sent)) =
      some ((u.fill (frame m)).goto t (.send m)) := by
  refine run_single.mpr ?_
  simp only [step, next, ht, h.1, le_refl, if_true, memcpy_frame h]

theorem serialerTo_run (sent : Option Nat) (hm : Fits m) (ht : u.pc t = .serialerTo m)
    (h : Filled u.conn.sendBuffer (.serialerTo m)) :
    run step u (List.replicate 2 (.next t sent)) =
      some ((u.fill (frame m)).goto t (.send m)) := by
  have hlength : u.conn.sendBuffer.length = tcpHeaderSize + m.length := h
  have hlong : tcpHeaderSize ≤ u.conn.sendBuffer.length := by omega
  have hstep : step u (.next t sent) = some
      ((u.fill (header m ++ u.conn.sendBuffer.drop tcpHeaderSize)).goto t (.memcpy m)) := by
    simp only [step, next, ht, hlong, if_true, serialerTo_header hm hlong]
  have hfilled : Filled (header m ++ u.conn.sendBuffer.drop tcpHeaderSize) (.memcpy m) :=
    ⟨by simp [hlength], List.take_left' (header_length m)⟩
  have hrest := memcpy_run (u := (u.fill (header m ++ u.conn.sendBuffer.drop tcpHeaderSize)).goto t
    (.memcpy m)) sent goto_pc hfilled
  rw [List.replicate_succ, run, hstep, Option.bind_some, hrest, goto_fill_goto]

theorem resize_run (sent : Option Nat) (hm : Fits m) (ht : u.pc t = .resize m) :
    run step u (List.replicate 3 (.next t sent)) =
      some ((u.fill (frame m)).goto t (.send m)) := by
  have hstep : step u (.next t sent) = some ((u.fill
      (resize u.conn.sendBuffer (tcpHeaderSize + m.length))).goto t (.serialerTo m)) := by
    simp only [step, next, ht]
  have hfilled : Filled (resize u.conn.sendBuffer (tcpHeaderSize + m.length)) (.serialerTo m) :=
    resize_length ..
  have hrest := serialerTo_run (u := (u.fill (resize u.conn.sendBuffer
    (tcpHeaderSize + m.length))).goto t (.serialerTo m)) sent hm goto_pc hfilled
  rw [List.replicate_succ, run, hstep, Option.bind_some, hrest, goto_fill_goto]

theorem lines_run (sent : Option Nat) (hm : Fits m) (ht : (u.pc t).message = some m)
    (h : Filled u.conn.sendBuffer (u.pc t)) : ∃ k,
      run step u (List.replicate k (.next t sent)) =
        some ((u.fill (frame m)).goto t (.send m)) := by
  cases hp : u.pc t with
  | out res =>
    rw [hp] at ht
    cases ht
  | resize m' =>
    rw [hp] at ht
    obtain rfl := Option.some.inj ht
    exact ⟨3, resize_run sent hm hp⟩
  | serialerTo m' =>
    rw [hp] at ht h
    obtain rfl := Option.some.inj ht
    exact ⟨2, serialerTo_run sent hm hp h⟩
  | memcpy m' =>
    rw [hp] at ht h
    obtain rfl := Option.some.inj ht
    exact ⟨1, memcpy_run sent hp h⟩
  | send m' =>
    rw [hp] at ht h
    obtain rfl := Option.some.inj ht
    have hframe : u.conn.sendBuffer = frame m' := h
    refine ⟨0, congrArg some ?_⟩
    rw [← hframe, ← hp, Sys.goto, fill_pc, Function.update_eq_self]
    rfl

theorem send_step (ht : u.pc t = .send m) (hn : n ≤ tcpHeaderSize + m.length)
    (h : tcpHeaderSize + m.length ≤ u.conn.sendBuffer.length) : step u (.next t (some n)) = some
      ({ u with written := u.written ++ u.conn.sendBuffer.take n }.goto t (.out (toInt n))) := by
  simp only [step, next, ht, h, hn, if_true]

/-- A caller whom nobody joins does what sendData does. -/
theorem alone_sendData {sent : Option Nat} (ht : u.pc t = .out res) (hc : Started u.conn)
    (hpos : 0 < len) (hlen : len ≤ data.length)
    (hsent : ∀ n, sent = some n → n ≤ tcpHeaderSize + len.toNat) :
    run step u (.sendData t data len :: List.replicate 4 (.next t sent)) =
      (sendData u.conn data len fun _ => sent).map fun out =>
        ⟨out.conn, Function.update u.pc t (.out out.res), u.written ++ out.written⟩ := by
  have hready : ¬(u.conn.state ≠ .started ∨ u.conn.socketFd < 0) := by
    rw [not_or, not_not, not_lt]
    exact hc
  obtain ⟨m, hm⟩ : ∃ m, m = data.take len.toNat := ⟨_, rfl⟩
  by_cases hmax : intMax < tcpHeaderSize + len
  · have hnone : u.enter t data len = none := by
      rw [Sys.enter, if_neg (not_lt.mpr hlen), if_neg hready, if_neg (not_le.mpr hpos), if_pos hmax]
    have hnone' : sendData u.conn data len (fun _ => sent) = none := by
      rw [sendData, if_neg hready, if_neg (not_le.mpr hpos), if_pos hmax]
    simp only [run, step, ht, hnone, hnone', Option.bind_none, Option.map_none]
  · have henter : u.enter t data len = some (u.goto t (.resize m)) := by
      rw [Sys.enter, if_neg (not_lt.mpr hlen), if_neg hready, if_neg (not_le.mpr hpos),
        if_neg hmax, hm]
    obtain ⟨hlength, hfits⟩ := message_fits hlen hpos (not_lt.mp hmax)
    rw [← hm] at hlength hfits
    rw [sendData_message u.conn _ hc hpos (not_lt.mp hmax) hlen, ← hm, run, step, ht]
    simp only [henter, Option.bind_some]
    rw [List.replicate_succ', run_append, resize_run _ hfits goto_pc, Option.bind_some]
    cases sent with
    | none => simp [run, step, next, frame_length, Sys.goto, Sys.fill]
    | some n =>
      have hn := hsent n rfl
      simp [run, step, next, frame_length, hlength, hn, Sys.goto, Sys.fill]

/-! Callers that carry the same message. -/

/-- The message whose send the kernel takes with a step. -/
def taken (x : Move (Sys T) (Act T)) : Option Bytes :=
  match x.act with
  | .next t (some _) =>
    match x.pre.pc t with
    | .send m => some m
    | _ => none
  | _ => none

/-- A caller joins others only with the message that they carry, and send takes all it is given. -/
def Orderly (u : Sys T) : Act T → Prop
  | .sendData _ data len =>
    0 < len → ∀ s m, (u.pc s).message = some m → m = data.take len.toNat
  | .next t sent => ∀ n m, sent = some n → u.pc t = .send m → n = tcpHeaderSize + m.length

structure Alike (u : Sys T) : Prop where
  started : Started u.conn
  same : ∀ s t m m', (u.pc s).message = some m → (u.pc t).message = some m' → m = m'
  fits : ∀ t m, (u.pc t).message = some m → Fits m
  filled : ∀ t, Filled u.conn.sendBuffer (u.pc t)

theorem Alike.moves (h : Alike u) (hconn : Started v.conn) (hpc : v.pc = Function.update u.pc t p)
    (hp : ∀ m, p.message = some m → Fits m ∧ ∀ s m', (u.pc s).message = some m' → m' = m)
    (hothers : ∀ s, Filled v.conn.sendBuffer (u.pc s)) (hfilled : Filled v.conn.sendBuffer p) :
    Alike v where
  started := hconn
  same s s' m m' hs hs' := by
    rw [hpc] at hs hs'
    by_cases h1 : s = t <;> by_cases h2 : s' = t
    · rw [h1, Function.update_self] at hs
      rw [h2, Function.update_self, hs] at hs'
      exact Option.some.inj hs'
    · rw [h1, Function.update_self] at hs
      rw [Function.update_of_ne h2] at hs'
      exact ((hp m hs).2 s' m' hs').symm
    · rw [Function.update_of_ne h1] at hs
      rw [h2, Function.update_self] at hs'
      exact (hp m' hs').2 s m hs
    · rw [Function.update_of_ne h1] at hs
      rw [Function.update_of_ne h2] at hs'
      exact h.same s s' m m' hs hs'
  fits s m hs := by
    rw [hpc] at hs
    by_cases h1 : s = t
    · rw [h1, Function.update_self] at hs
      exact (hp m hs).1
    · rw [Function.update_of_ne h1] at hs
      exact h.fits s m hs
  filled s := by
    rw [hpc]
    by_cases h1 : s = t
    · rw [h1, Function.update_self]
      exact hfilled
    · rw [Function.update_of_ne h1]
      exact hothers s

/-- A line of a caller, which writes what the others of the same message have written too. -/
theorem Alike.fills (h : Alike u) (ht : (u.pc t).message = some m) (hp : p.message = some m)
    (hsame : ∀ p, p.message = some m → Filled u.conn.sendBuffer p → Filled buffer p)
    (hfilled : Filled buffer p) : Alike ((u.fill buffer).goto t p) := by
  refine h.moves h.started rfl (fun m' hm' => ?_) (fun s => ?_) hfilled
  · obtain rfl := Option.some.inj (hp.symm.trans hm')
    exact ⟨h.fits t m ht, fun s m' hs => h.same s t m' m hs ht⟩
  · show Filled buffer (u.pc s)
    cases hs : (u.pc s).message with
    | none => exact filled_out hs
    | some m' =>
      obtain rfl := h.same s t m' m hs ht
      exact hsame _ hs (h.filled s)

theorem Alike.leaves (h : Alike u) (res : Int) (written : Bytes) :
    Alike ({ u with written := written }.goto t (.out res)) :=
  h.moves h.started rfl (fun _ hm => by cases hm) h.filled trivial

theorem next_alike {sent : Option Nat} (h : Alike u) (horderly : Orderly u (.next t sent))
    (hstep : next u t sent = some v) :
    Alike v ∧ v.written = u.written ++ frames (taken ⟨u, .next t sent, v⟩).toList := by
  have hfilled := h.filled t
  cases ht : u.pc t with
  | out res => simp [next, ht] at hstep
  | resize m =>
    have hm : (u.pc t).message = some m := by rw [ht]; rfl
    simp only [next, ht, Option.some.injEq] at hstep
    subst hstep
    refine ⟨h.fills hm rfl (fun p hp hfilled => hfilled.resize hp) (resize_length ..), ?_⟩
    cases sent <;> simp [taken, ht, frames]
  | serialerTo m =>
    have hm : (u.pc t).message = some m := by rw [ht]; rfl
    rw [ht] at hfilled
    have hlength : u.conn.sendBuffer.length = tcpHeaderSize + m.length := hfilled
    have hlong : tcpHeaderSize ≤ u.conn.sendBuffer.length := by omega
    simp only [next, ht, hlong, if_true, serialerTo_header (h.fits t m hm) hlong,
      Option.some.injEq] at hstep
    subst hstep
    refine ⟨h.fills hm rfl (fun p hp hfilled => hfilled.serialerTo hp hlength)
      ⟨by simp [hlength], List.take_left' (header_length m)⟩, ?_⟩
    cases sent <;> simp [taken, ht, frames]
  | memcpy m =>
    have hm : (u.pc t).message = some m := by rw [ht]; rfl
    rw [ht] at hfilled
    simp only [next, ht, hfilled.1, le_refl, if_true, memcpy_frame hfilled,
      Option.some.injEq] at hstep
    subst hstep
    refine ⟨h.fills hm rfl (fun p hp _ => filled_frame hp) rfl, ?_⟩
    cases sent <;> simp [taken, ht, frames]
  | send m =>
    rw [ht] at hfilled
    have hframe : u.conn.sendBuffer = frame m := hfilled
    cases sent with
    | none =>
      simp only [next, ht, hframe, frame_length, le_refl, if_true, Option.some.injEq] at hstep
      subst hstep
      exact ⟨h.leaves (-1) u.written, by simp [taken, frames]⟩
    | some n =>
      obtain rfl := horderly n m rfl ht
      simp only [next, ht, hframe, frame_length, le_refl, if_true, Option.some.injEq] at hstep
      subst hstep
      refine ⟨h.leaves _ _, ?_⟩
      simp [taken, ht, frames, ← frame_length]

theorem enter_alike (h : Alike u) (horderly : Orderly u (.sendData t data len))
    (hstep : u.enter t data len = some v) : Alike v ∧ v.written = u.written := by
  unfold Sys.enter at hstep
  split_ifs at hstep with hdata hready hlen hmax
  · obtain rfl := Option.some.inj hstep
    exact ⟨h.leaves (-1) u.written, rfl⟩
  · obtain rfl := Option.some.inj hstep
    exact ⟨h.leaves (-1) u.written, rfl⟩
  · obtain rfl := Option.some.inj hstep
    obtain ⟨-, hfits⟩ := message_fits (not_lt.mp hdata) (not_le.mp hlen) (not_lt.mp hmax)
    refine ⟨h.moves h.started rfl (fun m hm => ?_) h.filled trivial, rfl⟩
    obtain rfl := Option.some.inj hm
    exact ⟨hfits, horderly (not_le.mp hlen)⟩

theorem step_alike {a : Act T} (h : Alike u) (horderly : Orderly u a) (hstep : step u a = some v) :
    Alike v ∧ v.written = u.written ++ frames (taken ⟨u, a, v⟩).toList := by
  cases a with
  | sendData t data len =>
    cases ht : u.pc t with
    | out res =>
      simp only [step, ht] at hstep
      obtain ⟨halike, hwritten⟩ := enter_alike h horderly hstep
      exact ⟨halike, by simp [hwritten, taken, frames]⟩
    | _ => simp [step, ht] at hstep
  | next t sent => exact next_alike h horderly hstep

omit [DecidableEq T] in
theorem alike_start {c : TcpIoConnection} (hc : Started c) : Alike ({ conn := c } : Sys T) where
  started := hc
  same _ _ _ _ h := by cases h
  fits _ _ h := by cases h
  filled _ := trivial

variable {ms ns : List (Move (Sys T) (Act T))}

/-- All that was sent is on the stream, one whole frame after another, and every caller can take
its next line. -/
structure Intact (ms : List (Move (Sys T) (Act T))) (u : Sys T) : Prop where
  written : u.written = frames (ms.filterMap taken)
  enabled : ∀ t m, (u.pc t).message = some m → ∃ v, step u (.next t none) = some v

theorem path_alike (h : Path step u ms v) (hu : Alike u)
    (hms : ∀ x ∈ ms, Orderly x.pre x.act) :
    Alike v ∧ v.written = u.written ++ frames (ms.filterMap taken) := by
  induction h with
  | nil => exact ⟨hu, (List.append_nil _).symm⟩
  | @snoc ms v w a hp hstep ih =>
    obtain ⟨halike, hwritten⟩ := ih fun x hx => hms x (List.mem_append_left _ hx)
    obtain ⟨halike', hwritten'⟩ := step_alike halike (hms ⟨v, a, w⟩ (by simp)) hstep
    refine ⟨halike', ?_⟩
    rw [hwritten', hwritten, List.append_assoc, List.filterMap_append]
    simp only [frames, List.flatMap_append]
    cases htaken : taken ⟨v, a, w⟩ <;> simp [htaken]

theorem Alike.enabled (h : Alike u) (ht : (u.pc t).message = some m) :
    ∃ v, step u (.next t none) = some v := by
  have hfilled := h.filled t
  cases hp : u.pc t with
  | out res =>
    rw [hp] at ht
    cases ht
  | resize m' => simp [step, next, hp]
  | serialerTo m' =>
    rw [hp] at hfilled
    have hlength : u.conn.sendBuffer.length = tcpHeaderSize + m'.length := hfilled
    have hlong : tcpHeaderSize ≤ u.conn.sendBuffer.length := by omega
    simp [step, next, hp, hlong]
  | memcpy m' =>
    rw [hp] at hfilled
    simp [step, next, hp, hfilled.1]
  | send m' =>
    rw [hp] at hfilled
    have hframe : u.conn.sendBuffer = frame m' := hfilled
    simp [step, next, hp, hframe, frame_length]

/-! A second message. -/

theorem frame_take (ha : Fits a) (hb : Fits b)
    (h : (frame b).take (tcpHeaderSize + a.length) = frame a) : a = b := by
  have hamax : a.length ≤ 2 ^ 31 - 1 - 5 := ha.2
  have hbmax : b.length ≤ 2 ^ 31 - 1 - 5 := hb.2
  have hsplit : frame b = frame a ++ (frame b).drop (tcpHeaderSize + a.length) := by
    rw [← h, List.take_append_drop]
  have hfield : lengthField (frame b) = a.length := by
    rw [hsplit]
    exact lengthField_frame a _ (by omega)
  have hfield' : lengthField (frame b) = b.length := by
    rw [← List.append_nil (frame b)]
    exact lengthField_frame b [] (by omega)
  have hlength : a.length = b.length := hfield.symm.trans hfield'
  rw [hlength, ← frame_length, List.take_length] at h
  exact ((List.append_inj h (by simp)).2).symm

theorem quiet_path {as : List (Act T)} (h : run step u as = some v)
    (has : ∀ x ∈ as, ∃ t, x = .next t none) : ∃ ns, Path step u ns v ∧
      (∀ x ∈ ns, Orderly x.pre x.act) ∧ ns.filterMap taken = [] := by
  obtain ⟨ns, hp, rfl⟩ := path_of_run h
  have hquiet (x : Move (Sys T) (Act T)) (hx : x ∈ ns) : ∃ t, x.act = .next t none :=
    has x.act (List.mem_map_of_mem hx)
  refine ⟨ns, hp, fun x hx => ?_, List.filterMap_eq_nil_iff.mpr fun x hx => ?_⟩
  · obtain ⟨t, ht⟩ := hquiet x hx
    rw [ht]
    exact fun _ _ hsent => by cases hsent
  · obtain ⟨t, ht⟩ := hquiet x hx
    simp [taken, ht]

/-- The caller of `b` fills the buffer between the lines of the caller of `a`. -/
theorem overtaken (hne : s ≠ t) (ha : Fits a) (hb : Fits b) (hs : (u.pc s).message = some a)
    (hfilled : Filled u.conn.sendBuffer (u.pc s)) (ht : u.pc t = .resize b)
    (hle : a.length ≤ b.length) : ∃ ns v, Path step u ns v ∧
      (∀ x ∈ ns, Orderly x.pre x.act) ∧ ns.filterMap taken = [a] ∧
      v.pc s = .out (toInt (tcpHeaderSize + a.length : Nat)) ∧ v.pc t = .send b ∧
      v.conn.sendBuffer = frame b ∧
      v.written = u.written ++ (frame b).take (tcpHeaderSize + a.length) := by
  obtain ⟨k, hfirst⟩ := lines_run none ha hs hfilled
  have hwaits : ((u.fill (frame a)).goto s (.send a)).pc t = .resize b :=
    (goto_pc_of_ne hne.symm).trans ht
  have hsecond := resize_run none hb hwaits
  have hrun := run_trans hfirst hsecond
  obtain ⟨ns, hp, horderly, htaken⟩ := quiet_path hrun (by simp [or_imp, forall_and])
  have hready : ((((u.fill (frame a)).goto s (.send a)).fill (frame b)).goto t (.send b)).pc s =
      .send a := by
    rw [goto_pc_of_ne hne, fill_pc, goto_pc]
  have hsend := send_step hready le_rfl (by
    rw [goto_conn, fill_sendBuffer, frame_length]
    omega)
  refine ⟨_, _, hp.snoc hsend, fun x hx => ?_, ?_, goto_pc, ?_, rfl, rfl⟩
  · obtain hold | hnew := List.mem_append.mp hx
    · exact horderly x hold
    · obtain rfl := List.mem_singleton.mp hnew
      intro n m hn hm
      obtain rfl := Pc.send.inj (hready.symm.trans hm)
      exact (Option.some.inj hn).symm
  · rw [List.filterMap_append, htaken]
    simp [taken, hready]
  · rw [goto_pc_of_ne hne.symm]
    exact goto_pc

theorem enter_resize (hpos : 0 < len) (hc : Started u.conn) (h : u.enter t data len = some v) :
    (data.take len.toNat).length = len.toNat ∧ Fits (data.take len.toNat) ∧
      v = u.goto t (.resize (data.take len.toNat)) := by
  unfold Sys.enter at h
  split_ifs at h with hdata hready hlen hmax
  · exact absurd hready (by rw [not_or, not_not, not_lt]; exact hc)
  · exact absurd hpos (not_lt.mpr hlen)
  · obtain ⟨hlength, hfits⟩ := message_fits (not_lt.mp hdata) hpos (not_lt.mp hmax)
    exact ⟨hlength, hfits, (Option.some.inj h).symm⟩

theorem call_enter (h : step u (.sendData t data len) = some v) :
    (u.pc t).message = none ∧ u.enter t data len = some v := by
  cases ht : u.pc t with
  | out res => exact ⟨rfl, by simpa [step, ht] using h⟩
  | _ => simp [step, ht] at h

theorem cut_off (hs : u.pc s = .memcpy a ∨ u.pc s = .send a)
    (h : u.conn.sendBuffer.length < tcpHeaderSize + a.length) : step u (.next s none) = none := by
  obtain hs | hs := hs <;> simp [step, next, hs, h]

theorem overtaken_broken (hne : s ≠ t) (hab : a ≠ b) (ha : Fits a) (hb : Fits b)
    (hs : (w.pc s).message = some a) (hfilled : Filled w.conn.sendBuffer (w.pc s))
    (ht : w.pc t = .resize b) (hle : a.length ≤ b.length)
    (hwritten : w.written = frames (ms.filterMap taken)) : ∃ ns v, Path step w ns v ∧
      (∀ x ∈ ns, Orderly x.pre x.act) ∧ ¬Intact (ms ++ ns) v := by
  obtain ⟨ns, v, hp, horderly, htaken, -, -, -, hv⟩ := overtaken hne ha hb hs hfilled ht hle
  refine ⟨ns, v, hp, horderly, fun hintact => hab (frame_take ha hb ?_)⟩
  have hstream := hintact.written
  rw [hv, hwritten, List.filterMap_append, htaken, frames, frames, List.flatMap_append] at hstream
  simpa using hstream

/-- A shorter message, and a caller that is behind its own resize. -/
theorem cut_broken (hne : s ≠ t) (ht : w.pc t = .resize b) (hlt : b.length < a.length)
    (hs : w.pc s = .serialerTo a ∨ w.pc s = .memcpy a ∨ w.pc s = .send a) :
    ∃ ns v, Path step w ns v ∧ (∀ x ∈ ns, Orderly x.pre x.act) ∧ ¬Intact (ms ++ ns) v := by
  let w₁ := (w.fill (resize w.conn.sendBuffer (tcpHeaderSize + b.length))).goto t (.serialerTo b)
  have hresize : step w (.next t none) = some w₁ := by simp only [step, next, ht, w₁]
  have hlength : w₁.conn.sendBuffer.length = tcpHeaderSize + b.length := resize_length ..
  have hs₁ : w₁.pc s = w.pc s := goto_pc_of_ne hne
  have hshort : w₁.conn.sendBuffer.length < tcpHeaderSize + a.length := by omega
  obtain hs | hs := hs
  · let w₂ := (w₁.fill (TcpHeader.serialerTo ⟨0, UInt32.ofNat a.length⟩
      w₁.conn.sendBuffer)).goto s (.memcpy a)
    have hlong : tcpHeaderSize ≤ w₁.conn.sendBuffer.length := by omega
    have hheader : step w₁ (.next s none) = some w₂ := by
      simp only [step, next, hs₁, hs, hlong, if_true, w₂]
    have hlength₂ : w₂.conn.sendBuffer.length = w₁.conn.sendBuffer.length := by
      show (TcpHeader.serialerTo _ _).length = _
      rw [serialerTo_eq _ _ hlong]
      simp [tcpHeaderSize] at hlong ⊢
      omega
    have hrun : run step w [.next t none, .next s none] = some w₂ := by
      simp only [run, hresize, hheader, Option.bind_some]
    obtain ⟨ns, hp, horderly, -⟩ := quiet_path hrun (by simp)
    refine ⟨ns, w₂, hp, horderly, fun hintact => ?_⟩
    obtain ⟨v, hv⟩ := hintact.enabled s a (by rw [show w₂.pc s = .memcpy a from goto_pc]; rfl)
    rw [cut_off (.inl goto_pc) (hlength₂ ▸ hshort)] at hv
    cases hv
  · obtain ⟨ns, hp, horderly, -⟩ := quiet_path (run_single.mpr hresize) (by simp)
    refine ⟨ns, w₁, hp, horderly, fun hintact => ?_⟩
    have hmessage : (w₁.pc s).message = some a := by
      rw [hs₁]
      obtain hs | hs := hs <;> rw [hs] <;> rfl
    obtain ⟨v, hv⟩ := hintact.enabled s a hmessage
    rw [cut_off (hs₁ ▸ hs) hshort] at hv
    cases hv

/-- Callers that stay in order so far, and one that comes in with a message: nothing can get lost,
mixed up or written beyond the vector, in whatever order they go on, exactly when all that are
inside carry the same message. -/
theorem intact_iff_same {c : TcpIoConnection} (hc : Started c) (h : Path step { conn := c } ms u)
    (hms : ∀ x ∈ ms, Orderly x.pre x.act) (hpos : 0 < len)
    (hcall : step u (.sendData t data len) = some w) :
    (∀ ns v, Path step w ns v → (∀ x ∈ ns, Orderly x.pre x.act) → Intact (ms ++ ns) v) ↔
      ∀ s m, (u.pc s).message = some m → m = data.take len.toNat := by
  obtain ⟨hu, hwritten⟩ := path_alike h (alike_start hc) hms
  obtain ⟨hout, henter⟩ := call_enter hcall
  rw [List.nil_append] at hwritten
  constructor
  · intro hall s a hs
    by_contra hab
    obtain ⟨-, hb, rfl⟩ := enter_resize hpos hu.started henter
    have hne : s ≠ t := by
      rintro rfl
      cases hs.symm.trans hout
    have hs' : (u.goto t (.resize (data.take len.toNat))).pc s = u.pc s := goto_pc_of_ne hne
    have hbroken : ∃ ns v, Path step (u.goto t (.resize (data.take len.toNat))) ns v ∧
        (∀ x ∈ ns, Orderly x.pre x.act) ∧ ¬Intact (ms ++ ns) v := by
      by_cases hle : a.length ≤ (data.take len.toNat).length
      · exact overtaken_broken hne hab (hu.fits s a hs) hb (hs' ▸ hs) (hs' ▸ hu.filled s) goto_pc
          hle hwritten
      · cases hp : u.pc s with
        | out res =>
          rw [hp] at hs
          cases hs
        | resize m =>
          rw [hp] at hs
          obtain rfl := Option.some.inj hs
          exact overtaken_broken hne.symm (Ne.symm hab) hb (hu.fits s m (hp ▸ rfl))
            (by rw [goto_pc]; rfl) (by rw [goto_pc]; trivial) (hs'.trans hp)
            (le_of_lt (not_le.mp hle)) hwritten
        | serialerTo m =>
          rw [hp] at hs
          obtain rfl := Option.some.inj hs
          exact cut_broken hne goto_pc (not_le.mp hle) (.inl (hs'.trans hp))
        | memcpy m =>
          rw [hp] at hs
          obtain rfl := Option.some.inj hs
          exact cut_broken hne goto_pc (not_le.mp hle) (.inr (.inl (hs'.trans hp)))
        | send m =>
          rw [hp] at hs
          obtain rfl := Option.some.inj hs
          exact cut_broken hne goto_pc (not_le.mp hle) (.inr (.inr (hs'.trans hp)))
    obtain ⟨ns, v, hp, horderly, hnot⟩ := hbroken
    exact hnot (hall ns v hp horderly)
  · intro hsame ns v hp horderly
    obtain ⟨hw, hkept⟩ := enter_alike hu (fun _ => hsame) henter
    obtain ⟨hv, hstream⟩ := path_alike hp hw horderly
    refine ⟨?_, fun s m hs => hv.enabled hs⟩
    rw [hstream, hkept, hwritten, List.filterMap_append, frames, frames, frames,
      List.flatMap_append]

/-! Two callers of one connection. -/

theorem two_callers : ∃ u w : Sys Bool,
    step { conn := connectedTo 4 } (.sendData true [104, 105] 2) = some u ∧
      step u (.sendData false [33, 33] 2) = some w ∧ (u.pc true).message = some [104, 105] :=
  ⟨_, _, rfl, rfl, rfl⟩

theorem first_orderly {x : Move (Sys Bool) (Act Bool)} {u : Sys Bool}
    (h : x ∈ ([] ++ [⟨{ conn := connectedTo 4 }, .sendData true [104, 105] 2, u⟩])) :
    Orderly x.pre x.act := by
  obtain rfl := List.mem_singleton.mp h
  exact fun _ _ _ hm => by cases hm

theorem intact_iff_same_two : ∃ (ms : List (Move (Sys Bool) (Act Bool))) (u w : Sys Bool),
    Path step { conn := connectedTo 4 } ms u ∧ step u (.sendData false [33, 33] 2) = some w ∧
      ¬∀ ns v, Path step w ns v → (∀ x ∈ ns, Orderly x.pre x.act) → Intact (ms ++ ns) v := by
  obtain ⟨u, w, hfirst, hsecond, hs⟩ := two_callers
  refine ⟨_, u, w, Path.nil.snoc hfirst, hsecond, fun hall => ?_⟩
  have hsame := (intact_iff_same ⟨rfl, by decide⟩ (Path.nil.snoc hfirst)
    (fun _ hx => first_orderly hx) (by decide) hsecond).mp hall true _ hs
  exact absurd hsame (by decide)

/-- Whenever a connection has read all that it can of the stream, it has handed over these
messages. -/
def Hands (stream : Bytes) (messages : List Bytes) : Prop :=
  ∀ d xs r, d.Live → Path Segments.step { conn := d } xs r → r.written = stream →
    Segments.Blocked r → r.calls = messages.map fun m => .handleData m m.length

theorem frames_hand {messages : List Bytes} (hm : Framable messages) :
    Hands (frames messages) messages :=
  fun _ _ _ hd hr hwritten hblocked => (Segments.blocked_handed hd hr hm hwritten hblocked).1

theorem taken_fits (h : Path step u ms v) (hu : Alike u) (hms : ∀ x ∈ ms, Orderly x.pre x.act) :
    Framable (ms.filterMap taken) := by
  intro m hm
  obtain ⟨x, hx, htaken⟩ := List.mem_filterMap.mp hm
  obtain ⟨hpre, -, -⟩ := h.guarded_move hu (fun _ _ _ hi hg hs => (step_alike hi hg hs).1) hms hx
  obtain ⟨pre, act, post⟩ := x
  unfold taken at htaken
  split at htaken
  · split at htaken
    · next ht =>
      obtain rfl := Option.some.inj htaken
      exact hpre.fits _ _ (by rw [ht]; rfl)
    · cases htaken
  · cases htaken

/-- A message of the length of one that another caller carries: the two can go on so that each of
them is told that its own was sent, and the other side is handed the second one twice. -/
theorem lost_and_twice {c : TcpIoConnection} (hc : Started c) (h : Path step { conn := c } ms u)
    (hms : ∀ x ∈ ms, Orderly x.pre x.act) (hs : (u.pc s).message = some a) (hpos : 0 < len)
    (hcall : step u (.sendData t data len) = some w) (hlen : a.length = len.toNat) :
    ∃ ns v, Path step w ns v ∧
      (ms ++ ns).filterMap taken = ms.filterMap taken ++ [a, data.take len.toNat] ∧
      v.pc s = .out (tcpHeaderSize + len) ∧ v.pc t = .out (tcpHeaderSize + len) ∧
      Hands v.written (ms.filterMap taken ++ [data.take len.toNat, data.take len.toNat]) := by
  obtain ⟨hu, hwritten⟩ := path_alike h (alike_start hc) hms
  obtain ⟨hout, henter⟩ := call_enter hcall
  obtain ⟨hlength, hb, rfl⟩ := enter_resize hpos hu.started henter
  obtain ⟨b, hdata⟩ : ∃ b, b = data.take len.toNat := ⟨_, rfl⟩
  rw [← hdata] at hlength hb ⊢
  have hne : s ≠ t := by
    rintro rfl
    cases hs.symm.trans hout
  have hs' : (u.goto t (.resize b)).pc s = u.pc s := goto_pc_of_ne hne
  have ha : Fits a := hu.fits s a hs
  have hsame : b.length = a.length := hlength.trans hlen.symm
  obtain ⟨ns, v, hp, -, htaken, hvs, hvt, hbuffer, hv⟩ :=
    overtaken hne ha hb (hs' ▸ hs) (hs' ▸ hu.filled s) goto_pc hsame.ge
  have hsend := send_step hvt le_rfl (by rw [hbuffer, frame_length])
  have hall : (frame b).take (tcpHeaderSize + b.length) = frame b := by
    rw [← frame_length, List.take_length]
  have hres : toInt (tcpHeaderSize + a.length : Nat) = tcpHeaderSize + len := by
    have hmax : a.length ≤ 2 ^ 31 - 1 - 5 := ha.2
    rw [toInt_of_fits (by simp only [tcpHeaderSize]; omega)]
    omega
  have hframable : Framable (ms.filterMap taken ++ [b, b]) := by
    intro m hm
    obtain hold | hnew := List.mem_append.mp hm
    · exact taken_fits h (alike_start hc) hms m hold
    · obtain rfl : m = b := by simpa using hnew
      exact hb
  refine ⟨_, _, hp.snoc hsend, ?_, ?_, ?_, ?_⟩
  · simp [List.filterMap_append, htaken, taken, hvt]
  · rw [goto_pc_of_ne hne, hvs, hres]
  · rw [goto_pc, hsame, hres]
  · have hstream : v.written ++ v.conn.sendBuffer.take (tcpHeaderSize + b.length) =
        frames (ms.filterMap taken ++ [b, b]) := by
      rw [hv, hbuffer, ← hsame, hall]
      simp [frames, hwritten]
    rw [goto_written, hstream]
    exact frames_hand hframable

theorem lost_and_twice_two : ∃ (ms : List (Move (Sys Bool) (Act Bool))) (v : Sys Bool),
    Path step { conn := connectedTo 4 } ms v ∧ ms.filterMap taken = [[104, 105], [33, 33]] ∧
      Hands v.written [[33, 33], [33, 33]] := by
  obtain ⟨u, w, hfirst, hsecond, hs⟩ := two_callers
  obtain ⟨ns, v, hp, htaken, -, -, hhands⟩ := lost_and_twice ⟨rfl, by decide⟩
    (Path.nil.snoc hfirst) (fun _ hx => first_orderly hx) hs (by decide) hsecond rfl
  refine ⟨_, v, ((Path.nil.snoc hfirst).snoc hsecond).append hp, ?_, hhands⟩
  exact htaken

end DericRpc.SendBuffer
