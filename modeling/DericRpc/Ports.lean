import DericRpc.ClientLife
import DericRpc.Config
import DericRpc.Lib.Numeral
import DericRpc.ServiceLife

/-! A service's port from the text of its setting to htons: on the server in
RpcServiceEntry::init and start, on the client in RpcClientEntry::connect. -/
namespace DericRpc.Ports
open ByteString Common Config Connection Io IoServer Numeral Serial

inductive Thrown where
  | invalidArgument
  | outOfRange

def stoi (str : Bytes) : Except Thrown Int :=
  match leadingNumber str with
  | none => .error .invalidArgument
  | some value =>
    if -2 ^ 31 ≤ value ∧ value < 2 ^ 31 then .ok value else .error .outOfRange

/-- The int that htons is given, as the uint16_t that it takes. -/
def htonsArg (port : Int) : UInt16 := UInt16.ofInt port

/-- How the calls end: with an exception, or with a result, after htons was given `port`. There
is no result where IoModule's mutex is never given back. -/
inductive Outcome where
  | thrown (what : Thrown)
  | done (port : Option UInt16) (res : Option Int)

/-- A negative result, or the port that the whole text denotes. -/
def AsWritten (text : Bytes) : Outcome → Prop
  | .thrown _ => False
  | .done port res => (∃ r, res = some r ∧ r < 0) ∨
      ∃ n : UInt16, port = some n ∧ Denotes text n.toNat

/-- The keys IP and Port, and what a service book has behind the name of the service. -/
def ipKey : Bytes := [73, 80]
def portKey : Bytes := [80, 111, 114, 116]
def ipSuffix : Bytes := [95, 73, 80]
def portSuffix : Bytes := [95, 80, 111, 114, 116]

variable {P : MsgPack} {W : Type}

structure RpcServiceEntry (P : MsgPack) (W : Type) where
  serviceImpl : ServiceLife.System P W
  funcHelper : Functions.FunctionHelper

def setSerialer (_ : Functions.FunctionHelper) (serialer : Bool) :
    Functions.FunctionHelper × Int := (⟨serialer⟩, 0)

/-- `maxConnectionNumber` is whatever the ServiceConfig_s, which does not set it, has. -/
def RpcServiceEntry.init (e : RpcServiceEntry P W) (config : ItemMap) (maxConnectionNumber : Int) :
    RpcServiceEntry P W × Except Thrown Int :=
  let helper := setSerialer e.funcHelper true
  let e := { e with funcHelper := helper.1 }
  if helper.2 < 0 then (e, .ok helper.2)
  else
    let ip := getValue config ipKey
    if ip.2 < 0 then (e, .ok (-1))
    else
      let port := getValue config portKey
      if port.2 < 0 then (e, .ok (-1))
      else match stoi (port.1.getD []) with
        | .error what => (e, .error what)
        | .ok servicePort =>
          let out := ServiceLife.init e.serviceImpl
            ⟨ip.1.getD [], servicePort, maxConnectionNumber, true⟩
          ({ e with serviceImpl := out.1 }, .ok out.2)

/-- The port that TcpIoServer::start puts into its address, if it gets a socket for it. -/
def sinPort (u : ServiceLife.System P W) (a : StartAnswers) : Option UInt16 :=
  match u.impl.ioServer with
  | none => none
  | some server =>
    if u.impl.state = .initialized ∧ server.state = .initialized ∧ 0 ≤ a.sock then
      some (htonsArg server.port)
    else none

/-- init, and start where that succeeds. -/
def initAndStart (e : RpcServiceEntry P W) (config : ItemMap) (maxConnectionNumber : Int)
    (a : StartAnswers) : Outcome :=
  match e.init config maxConnectionNumber with
  | (_, .error what) => .thrown what
  | (e, .ok res) =>
    if res < 0 then .done none (some res)
    else .done (sinPort e.serviceImpl a) ((ServiceLife.start e.serviceImpl a).map Prod.snd)

/-- What socket returns, whether connect succeeds, and whether epoll_ctl fails. -/
structure ConnectAnswers where
  sock : Int
  connected : Bool
  refused : Bool

def connectRes (u v : ClientLife.Client) : Int :=
  if v.last = .connected u.count 0 then 0 else -1

/-- RpcClientImpl::connect; htons comes after the checks of the port and of the socket. -/
def implConnect (u : ClientLife.Client) (servicePort : Bytes) (a : ConnectAnswers) : Outcome :=
  match stoi servicePort with
  | .error what => .thrown what
  | .ok port =>
    .done (if 0 ≤ port ∧ 0 ≤ a.sock then some (htonsArg port) else none)
      ((ClientLife.connect u port a.sock a.connected a.refused).map (connectRes u))

/-- What RpcClientEntry::connect makes of RpcClientImpl's result. -/
def Outcome.checked : Outcome → Outcome
  | .thrown what => .thrown what
  | .done used res => .done used (res.map fun r => if r < 0 then -1 else 0)

structure RpcClientEntry where
  serviceBook : Bytes
  clientImpl : Option ClientLife.Client

/-- `files` has the lines of each file that can be opened. -/
def RpcClientEntry.connect (e : RpcClientEntry) (files : Bytes → Option (List CppString))
    (serviceName : Bytes) (a : ConnectAnswers) : Except Fault Outcome :=
  match e.clientImpl with
  | none => .ok (.done none (some (-1)))
  | some u => (Config.init (fun _ => none) (files e.serviceBook)).map fun (items, res) =>
    if res < 0 then .done none (some (-1))
    else
      let ip := getValue items (serviceName ++ ipSuffix)
      if ip.2 < 0 then .done none (some (-1))
      else
        let port := getValue items (serviceName ++ portSuffix)
        if port.2 < 0 then .done none (some (-1))
        else (implConnect u (port.1.getD []) a).checked

/-- The whole text is a numeral for a port. -/
def Written (text : Bytes) : Prop := ∃ n : UInt16, Denotes text n.toNat

/-- The text starts with a negative number, and int has it. -/
def Negative (text : Bytes) : Prop := ∃ z, Leads text z ∧ -2 ^ 31 ≤ z ∧ z < 0

theorem stoi_ok_iff {text : Bytes} {z : Int} :
    stoi text = .ok z ↔ Leads text z ∧ -2 ^ 31 ≤ z ∧ z < 2 ^ 31 := by
  rw [← leadingNumber_iff, stoi]
  cases hlead : leadingNumber text with
  | none => simp
  | some value =>
    simp only [Option.some.injEq]
    split_ifs with hint
    · rw [Except.ok.injEq]
      exact ⟨fun he => ⟨he, he ▸ hint⟩, And.left⟩
    · refine iff_of_false (fun he => by cases he) fun h => hint ?_
      exact h.1 ▸ h.2

theorem stoi_written {text : Bytes} {n : UInt16} (h : Denotes text n.toNat) :
    stoi text = .ok n.toNat := by
  have hn := n.toNat_lt
  exact stoi_ok_iff.mpr ⟨h.leads, by omega, by omega⟩

theorem htonsArg_toNat (n : UInt16) : htonsArg n.toNat = n := by
  have hn : (n.toNat : Int) < 2 ^ 16 := by exact_mod_cast n.toNat_lt
  rw [htonsArg, UInt16.ofInt, Int.emod_eq_of_lt (Int.natCast_nonneg _) hn, Int.toNat_natCast]
  exact UInt16.ofNat_toNat

/-- Calls that end well gave htons a port that was written, where they gave it one at all. -/
theorem AsWritten.written {text : Bytes} {port : UInt16} {res : Int} (hres : 0 ≤ res)
    (h : AsWritten text (.done (some port) (some res))) : Written text := by
  rcases h with ⟨r, hr, hneg⟩ | ⟨n, -, hn⟩
  · rw [Option.some.injEq] at hr
    omega
  · exact ⟨n, hn⟩

theorem asWritten_failed {text : Bytes} {port : Option UInt16} {res : Int} (hres : res < 0) :
    AsWritten text (.done port (some res)) := .inl ⟨res, rfl, hres⟩

theorem start_without_port {u : ServiceLife.System P W} {a : StartAnswers}
    (h : sinPort u a = none) : (ServiceLife.start u a).map Prod.snd = some (-1) := by
  unfold ServiceLife.start
  by_cases hstate : u.impl.state = .initialized
  · rw [if_neg (not_not.mpr hstate)]
    cases hserver : u.impl.ioServer with
    | none => rfl
    | some server =>
      simp only [sinPort, hserver, hstate, true_and, ite_eq_right_iff, reduceCtorEq, imp_false,
        not_and, not_le] at h
      by_cases hs : server.state = .initialized
      · simp [TcpIoServer.start, hs, h hs]
      · simp [TcpIoServer.start, hs]
  · rw [if_pos hstate]
    rfl

/-- A service that has just been initialised with a port gives htons no other. -/
theorem sinPort_init {u : ServiceLife.System P W} {config : ServiceLife.ServiceConfig}
    {a : StartAnswers} {port : UInt16} (hres : 0 ≤ (ServiceLife.init u config).2)
    (h : sinPort (ServiceLife.init u config).1 a = some port) :
    port = htonsArg config.servicePort := by
  unfold ServiceLife.init at h hres
  by_cases hstate : u.impl.state = .created
  · simp only [hstate, TcpIoServer.init, sinPort, ne_eq, not_true_eq_false, if_false, if_true,
      lt_irrefl, true_and, Option.ite_none_right_eq_some, Option.some.injEq] at h
    exact h.2.symm
  · rw [if_pos hstate] at hres
    exact absurd hres (show ¬(0 : Int) ≤ -1 by decide)

theorem init_noIp (e : RpcServiceEntry P W) {config : ItemMap} (maxConnectionNumber : Int)
    (hip : config ipKey = none) : (e.init config maxConnectionNumber).2 = .ok (-1) := by
  simp [RpcServiceEntry.init, setSerialer, getValue, hip]

theorem init_port (e : RpcServiceEntry P W) {config : ItemMap} {ip text : Bytes}
    (maxConnectionNumber : Int) (hip : config ipKey = some ip)
    (htext : config portKey = some text) :
    e.init config maxConnectionNumber = match stoi text with
      | .error what => (⟨e.serviceImpl, ⟨true⟩⟩, .error what)
      | .ok port =>
        let out := ServiceLife.init e.serviceImpl ⟨ip, port, maxConnectionNumber, true⟩
        (⟨out.1, ⟨true⟩⟩, .ok out.2) := by
  simp [RpcServiceEntry.init, setSerialer, getValue, hip, htext]

theorem server_asWritten {config : ItemMap} {text : Bytes} (htext : config portKey = some text)
    (h : config ipKey = none ∨ Written text) (e : RpcServiceEntry P W) (maxConnectionNumber : Int)
    (a : StartAnswers) : AsWritten text (initAndStart e config maxConnectionNumber a) := by
  cases hip : config ipKey with
  | none =>
    have hinit := init_noIp e maxConnectionNumber hip
    rw [initAndStart]
    rcases he : e.init config maxConnectionNumber with ⟨e', res⟩
    rw [he] at hinit
    obtain rfl : res = .ok (-1) := hinit
    exact asWritten_failed (by decide)
  | some ip =>
    obtain ⟨n, hn⟩ := h.resolve_left (by rw [hip]; exact Option.some_ne_none ip)
    rw [initAndStart, init_port e maxConnectionNumber hip htext, stoi_written hn]
    let out := ServiceLife.init e.serviceImpl ⟨ip, n.toNat, maxConnectionNumber, true⟩
    change AsWritten text (if out.2 < 0 then _ else _)
    by_cases hres : out.2 < 0
    · rw [if_pos hres]
      exact asWritten_failed hres
    · rw [if_neg hres]
      cases hport : sinPort out.1 a with
      | none =>
        rw [start_without_port hport]
        exact asWritten_failed (by decide)
      | some port =>
        refine .inr ⟨n, ?_, hn⟩
        rw [sinPort_init (not_lt.mp hres) hport, htonsArg_toNat]

/-- A new service with IoModule running, for which the kernel does all that it is asked. -/
def newService (P : MsgPack) (W : Type) : RpcServiceEntry P W where
  serviceImpl :=
    { io := { state := .started, wakeUpPipeFd := (3, 4), epollFd := 5, epollEvents := true }
      kernel := { isOpen := fun fd => decide (fd = 3 ∨ fd = 4 ∨ fd = 5) } }
  funcHelper := ⟨false⟩

def granted : StartAnswers := ⟨6, true, true, false⟩

theorem newService_starts {config : ItemMap} {ip text : Bytes} {port : Int}
    (hip : config ipKey = some ip) (htext : config portKey = some text)
    (hport : stoi text = .ok port) :
    initAndStart (newService P W) config 0 granted = .done (some (htonsArg port)) (some 0) := by
  rw [initAndStart, init_port (newService P W) 0 hip htext, hport]
  rfl

theorem server_written {config : ItemMap} {ip text : Bytes} (hip : config ipKey = some ip)
    (htext : config portKey = some text)
    (h : AsWritten text (initAndStart (newService P W) config 0 granted)) : Written text := by
  cases hport : stoi text with
  | error what =>
    rw [initAndStart, init_port (newService P W) 0 hip htext, hport] at h
    exact h.elim
  | ok port =>
    rw [newService_starts hip htext hport] at h
    exact h.written le_rfl

theorem connect_without_port (u : ClientLife.Client) {port sock : Int} {connected refused : Bool}
    (h : ¬(0 ≤ port ∧ 0 ≤ sock)) :
    (ClientLife.connect u port sock connected refused).map (connectRes u) = some (-1) := by
  have hres : (startConnect { ioClient := true } port sock connected).res = -1 :=
    startConnect_fails fun hgood => h ⟨hgood.1, hgood.2.1⟩
  unfold ClientLife.connect
  simp [hres, connectRes]

/-- A text that is a port, or a negative number, goes well in RpcClientImpl::connect. -/
theorem implConnect_asWritten {text : Bytes} (h : Written text ∨ Negative text)
    (u : ClientLife.Client) (a : ConnectAnswers) : AsWritten text (implConnect u text a) := by
  rcases h with ⟨n, hn⟩ | ⟨z, hz, hlow, hneg⟩
  · rw [implConnect, stoi_written hn]
    by_cases hgood : 0 ≤ (n.toNat : Int) ∧ 0 ≤ a.sock
    · refine .inr ⟨n, ?_, hn⟩
      rw [if_pos hgood, htonsArg_toNat]
    · simp only [connect_without_port u hgood]
      exact asWritten_failed (by decide)
  · have hstoi : stoi text = .ok z := stoi_ok_iff.mpr ⟨hz, hlow, by omega⟩
    rw [implConnect, hstoi]
    simp only [connect_without_port u fun hgood => absurd hgood.1 (not_le.mpr hneg)]
    exact asWritten_failed (by decide)

def settled : ConnectAnswers := ⟨6, true, false⟩

theorem newClient_connects {text : Bytes} {port : Int} (hport : stoi text = .ok port)
    (hpos : 0 ≤ port) : implConnect ClientLife.newClient text settled =
      .done (some (htonsArg port)) (some 0) := by
  have hsock : 0 ≤ settled.sock := by decide
  have hstart : startConnect { ioClient := true } port settled.sock settled.connected =
      ⟨connectedTo settled.sock, [], 0⟩ := startConnect_ok hpos hsock
  rw [implConnect, hport]
  simp only [if_pos (And.intro hpos hsock), ClientLife.connect, hstart]
  rfl

theorem checked_asWritten {text : Bytes} {out : Outcome} (h : AsWritten text out) :
    AsWritten text out.checked := by
  cases out with
  | thrown what => exact h
  | done port res =>
    refine h.imp_left ?_
    rintro ⟨r, rfl, hr⟩
    exact ⟨-1, by rw [Option.map_some, if_pos hr], by decide⟩

section Book
variable {files : Bytes → Option (List CppString)} {serviceBook serviceName : Bytes}
  {items : ItemMap}

theorem connect_noIp (hbook : Config.init (fun _ => none) (files serviceBook) = .ok (items, 0))
    (hip : items (serviceName ++ ipSuffix) = none) (impl : Option ClientLife.Client)
    (a : ConnectAnswers) : RpcClientEntry.connect ⟨serviceBook, impl⟩ files serviceName a =
      .ok (.done none (some (-1))) := by
  cases impl with
  | none => rfl
  | some u => simp [RpcClientEntry.connect, hbook, Except.map, getValue, hip]

theorem connect_port (hbook : Config.init (fun _ => none) (files serviceBook) = .ok (items, 0))
    {ip text : Bytes} (hip : items (serviceName ++ ipSuffix) = some ip)
    (htext : items (serviceName ++ portSuffix) = some text) (u : ClientLife.Client)
    (a : ConnectAnswers) : RpcClientEntry.connect ⟨serviceBook, some u⟩ files serviceName a =
      .ok (implConnect u text a).checked := by
  simp only [RpcClientEntry.connect, hbook, Except.map, getValue, hip, htext, lt_irrefl, if_false,
    Option.getD_some]

theorem client_asWritten (hbook : Config.init (fun _ => none) (files serviceBook) = .ok (items, 0))
    {text : Bytes} (htext : items (serviceName ++ portSuffix) = some text)
    (h : items (serviceName ++ ipSuffix) = none ∨ Written text ∨ Negative text)
    (impl : Option ClientLife.Client) (a : ConnectAnswers) :
    ∃ out, RpcClientEntry.connect ⟨serviceBook, impl⟩ files serviceName a = .ok out ∧
      AsWritten text out := by
  cases hip : items (serviceName ++ ipSuffix) with
  | none => exact ⟨_, connect_noIp hbook hip impl a, asWritten_failed (by decide)⟩
  | some ip =>
    have hgood := h.resolve_left (by rw [hip]; exact Option.some_ne_none ip)
    cases impl with
    | none => exact ⟨_, rfl, asWritten_failed (by decide)⟩
    | some u =>
      exact ⟨_, connect_port hbook hip htext u a,
        checked_asWritten (implConnect_asWritten hgood u a)⟩

theorem client_written (hbook : Config.init (fun _ => none) (files serviceBook) = .ok (items, 0))
    {ip text : Bytes} (hip : items (serviceName ++ ipSuffix) = some ip)
    (htext : items (serviceName ++ portSuffix) = some text)
    (h : ∃ out, RpcClientEntry.connect ⟨serviceBook, some ClientLife.newClient⟩ files serviceName
      settled = .ok out ∧ AsWritten text out) : Written text ∨ Negative text := by
  obtain ⟨out, hout, hwritten⟩ := h
  rw [connect_port hbook hip htext, Except.ok.injEq] at hout
  subst hout
  cases hport : stoi text with
  | error what =>
    rw [implConnect, hport] at hwritten
    exact hwritten.elim
  | ok port =>
    obtain ⟨hleads, hlow, -⟩ := stoi_ok_iff.mp hport
    rcases lt_or_ge port 0 with hneg | hpos
    · exact .inr ⟨port, hleads, hlow, hneg⟩
    · rw [newClient_connects hport hpos] at hwritten
      exact .inl (hwritten.written le_rfl)

end Book

/-- For every text of a server's setting: init and start go well, whatever state the service is
in and whatever the kernel answers, exactly when there is no IP or the whole text is a port.
For every text in a service book, likewise for connect, except that it refuses a text that
starts with a negative number. -/
theorem ports_as_written_iff (P : MsgPack) (W : Type) (text : Bytes) :
    (∀ config : ItemMap, config portKey = some text →
      ((∀ (e : RpcServiceEntry P W) maxConnectionNumber a,
        AsWritten text (initAndStart e config maxConnectionNumber a)) ↔
      config ipKey = none ∨ Written text)) ∧
    ∀ (files : Bytes → Option (List CppString)) (serviceBook serviceName : Bytes) (items : ItemMap),
      Config.init (fun _ => none) (files serviceBook) = .ok (items, 0) →
      items (serviceName ++ portSuffix) = some text →
      ((∀ (impl : Option ClientLife.Client) (a : ConnectAnswers),
        ∃ out, RpcClientEntry.connect ⟨serviceBook, impl⟩ files serviceName a = .ok out ∧
          AsWritten text out) ↔
      items (serviceName ++ ipSuffix) = none ∨ Written text ∨ Negative text) := by
  constructor
  · intro config htext
    refine ⟨fun hall => ?_, server_asWritten htext⟩
    cases hip : config ipKey with
    | none => exact .inl rfl
    | some ip => exact .inr (server_written hip htext (hall (newService P W) 0 granted))
  · intro files serviceBook serviceName items hbook htext
    refine ⟨fun hall => ?_, client_asWritten hbook htext⟩
    cases hip : items (serviceName ++ ipSuffix) with
    | none => exact .inl rfl
    | some ip =>
      exact .inr (client_written hbook hip htext (hall (some ClientLife.newClient) settled))

/-- A configuration with IP and this text for Port. -/
def settings (text : Bytes) : ItemMap :=
  Function.update (Function.update (fun _ => none) ipKey (some [49])) portKey (some text)

/-- The texts 80 and 65616. -/
def eighty : Bytes := [56, 48]
def tooLarge : Bytes := [54, 53, 54, 49, 54]

theorem eighty_written : Written eighty :=
  ⟨80, [], [56, 48], [], rfl, List.forall_mem_nil _,
    .unsigned ⟨by decide, List.all_eq_true.mp rfl, decimal_eq_ofDigits [56, 48]⟩,
    List.forall_mem_nil _⟩

/-- A service book with the lines S_IP=1 and S_Port=80. -/
def book : List CppString :=
  [⟨[83, 95, 73, 80, 61, 49], by decide⟩,
    ⟨[83, 95, 80, 111, 114, 116, 61, 56, 48], by decide⟩]

def bookItems : ItemMap :=
  emplace (emplace (fun _ => none) [83, 95, 73, 80] [49]) [83, 95, 80, 111, 114, 116] eighty

theorem book_loads : Config.init (fun _ => none) (some book) = .ok (bookItems, 0) := rfl

theorem ports_as_written_iff_eighty :
    (∀ (e : RpcServiceEntry standard Unit) maxConnectionNumber a,
      AsWritten eighty (initAndStart e (settings eighty) maxConnectionNumber a)) ∧
    ∀ impl a, ∃ out, RpcClientEntry.connect ⟨[], impl⟩ (fun _ => some book) [83] a = .ok out ∧
      AsWritten eighty out := by
  obtain ⟨hserver, hclient⟩ := ports_as_written_iff standard Unit eighty
  refine ⟨(hserver (settings eighty) (by decide)).mpr (.inr eighty_written), ?_⟩
  exact (hclient (fun _ => some book) [] [83] bookItems book_loads (by decide)).mpr
    (.inr (.inl eighty_written))

/-- The server starts on port 80, which the text does not say. -/
theorem large_port_wraps :
    initAndStart (newService standard Unit) (settings tooLarge) 0 granted =
      .done (some 80) (some 0) ∧
    ¬AsWritten tooLarge
      (initAndStart (newService standard Unit) (settings tooLarge) 0 granted) := by
  have hip : settings tooLarge ipKey = some [49] := by decide
  have htext : settings tooLarge portKey = some tooLarge := by decide
  have hlead : leadingNumber tooLarge = some 65616 := by decide
  have hport : stoi tooLarge = .ok 65616 := by simp [stoi, hlead]
  have hstart : initAndStart (newService standard Unit) (settings tooLarge) 0 granted =
      .done (some 80) (some 0) := newService_starts hip htext hport
  refine ⟨hstart, fun h => ?_⟩
  rw [hstart] at h
  obtain ⟨n, hn⟩ := h.written le_rfl
  have hvalue := Option.some.inj ((leadingNumber_of_leads hn.leads).symm.trans hlead)
  have hlt := n.toNat_lt
  omega

end DericRpc.Ports
