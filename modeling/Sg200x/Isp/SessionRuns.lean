import Sg200x.Isp.SessionFacts

/-!
# Every client gets its own response

A request is in the queue once, or has been handled once, and its response is on the way to the
client, in its queue, or lost.
-/

namespace Sg200x.Isp.Session

open Library.Transition

variable {n : ℕ} {isp₀ : Isp.State n} {s t : State n} {i : ℕ} {client : Client}

/-! ## The invariant -/

/-- Each request is handled in the state that the one before it leaves. -/
def Sequential (last : Isp.State n) : Isp.State n → List (Served n) → Prop
  | first, [] => first = last
  | first, served :: rest => served.before = first ∧ Sequential last served.after rest

theorem Sequential.append {first last : Isp.State n} {served : List (Served n)} (x : Served n)
    (h : Sequential last first served) (hbefore : x.before = last) :
    Sequential x.after first (served ++ [x]) := by
  induction served generalizing first with
  | nil => exact ⟨hbefore.trans h.symm, rfl⟩
  | cons y served ih => exact ⟨h.1, ih h.2⟩

/-- What the server is to handle of a datagram. -/
def Datagram.request (datagram : Datagram) : Option (Option ℕ × Text) :=
  datagram.sender.map fun _ => (datagram.client, datagram.text.take controlCommandSize)

def Served.request (served : Served n) : Option ℕ × Text := (served.client, served.text)

/-- The requests of a client that wait, and those that have been handled. -/
def State.asked (s : State n) (i : ℕ) : List Datagram := s.queue.filter (·.client = some i)

def State.answered (s : State n) (i : ℕ) : List (Served n) := s.served.filter (·.client = some i)

/-- The client that a response is on the way to. -/
def ServerPc.toward : ServerPc → Option ℕ
  | .reply _ client _ _ => client
  | _ => none

inductive Standing (s : State n) (i : ℕ) (client : Client) : Prop
  | asked : s.asked i = [⟨some i, some client.name, client.command⟩] → s.answered i = [] →
      client.inbox = [] → Standing s i client
  | answered (x : Served n) : s.asked i = [] → s.answered i = [x] → x.text = client.command →
      client.inbox = [] ∨ client.inbox = [x.response] ∧ s.server.toward ≠ some i →
      Standing s i client

def ClientFacts (s : State n) (i : ℕ) (client : Client) : Prop :=
  match client.pc with
  | .send =>
      clientCommand client.argv = some client.command ∧ client.inbox = [] ∧
        s.asked i = [] ∧ s.answered i = []
  | .poll => clientCommand client.argv = some client.command ∧ Standing s i client
  | .receive => clientCommand client.argv = some client.command ∧ Standing s i client
  | .exited status none => status ≠ 0 ∧ (s.asked i).length + (s.answered i).length ≤ 1
  | .exited status (some response) =>
      status = exitStatus response ∧ s.asked i = [] ∧
        ∃ x, s.answered i = [x] ∧ clientCommand client.argv = some x.text ∧ response = x.response

/-- The client has its socket bound to the address. -/
def State.Bound (s : State n) (i : ℕ) (name : Text) : Prop :=
  ∃ client, s.clients[i]? = some client ∧ client.pc.bound = true ∧ client.name = name

structure Base (isp₀ : Isp.State n) (s : State n) : Prop where
  sequential : Sequential s.isp isp₀ s.served
  inOrder : s.sent.filterMap Datagram.request =
    s.served.map Served.request ++ s.queue.filterMap Datagram.request
  names : ∀ name i j, s.Bound i name → s.Bound j name → i = j
  known : ∀ i, s.clients.length ≤ i → s.asked i = [] ∧ s.answered i = []
  senders : ∀ datagram ∈ s.queue, ∀ name i, datagram.sender = some name → s.Bound i name →
    datagram.client = some i
  addressed : ∀ datagram ∈ s.queue, ∀ i, datagram.client = some i → datagram.sender ≠ none
  /-- A response that is on the way is that of a request of its client, and goes to nobody else. -/
  reply : ∀ processed client peer response, s.server = .reply processed client peer response →
    (∃ x ∈ s.served, x.client = client ∧ x.response = response) ∧
      ∀ i, s.Bound i peer → client = some i

structure Inv (isp₀ : Isp.State n) (s : State n) : Prop extends Base isp₀ s where
  clients : ∀ i client, s.clients[i]? = some client → ClientFacts s i client

theorem inv_initial (isp : Isp.State n) : Inv isp (State.initial isp) where
  sequential := rfl
  inOrder := rfl
  names name i j := by rintro ⟨client, ⟨⟩, -⟩
  known i _ := ⟨rfl, rfl⟩
  senders _ hmem := by cases hmem
  addressed _ hmem := by cases hmem
  reply processed client peer response hserver := by cases hserver
  clients i client hclient := by cases hclient

/-! ## Clients -/

/-- The requests of a client stand as they did. -/
structure Same (s t : State n) (i : ℕ) : Prop where
  asked : t.asked i = s.asked i
  answered : t.answered i = s.answered i
  toward : t.server.toward = some i → s.server.toward = some i

theorem Standing.same (h : Standing s i client) (hsame : Same s t i) : Standing t i client := by
  cases h with
  | asked hasked hanswered hinbox =>
      exact .asked (hsame.asked.trans hasked) (hsame.answered.trans hanswered) hinbox
  | answered x hasked hanswered htext hinbox =>
      exact .answered x (hsame.asked.trans hasked) (hsame.answered.trans hanswered) htext
        (hinbox.imp_right fun h => ⟨h.1, fun hserver => h.2 (hsame.toward hserver)⟩)

theorem Standing.congr {client' : Client} (h : Standing s i client)
    (hname : client'.name = client.name) (hcommand : client'.command = client.command)
    (hinbox : client'.inbox = client.inbox) : Standing s i client' := by
  cases h with
  | asked hasked hanswered hempty =>
      exact .asked (by rw [hasked, hname, hcommand]) hanswered (hinbox.trans hempty)
  | answered x hasked hanswered htext hstands =>
      exact .answered x hasked hanswered (htext.trans hcommand.symm) (by rwa [hinbox])

theorem ClientFacts.same (h : ClientFacts s i client) (hsame : Same s t i) :
    ClientFacts t i client := by
  unfold ClientFacts at h ⊢
  split at h
  · rwa [hsame.asked, hsame.answered]
  · exact ⟨h.1, h.2.same hsame⟩
  · exact ⟨h.1, h.2.same hsame⟩
  · rwa [hsame.asked, hsame.answered]
  · rwa [hsame.asked, hsame.answered]

/-- A client that gives up before it has a response. -/
theorem ClientFacts.give_up (h : (s.asked i).length + (s.answered i).length ≤ 1) :
    ClientFacts s i { client with pc := .exited 1 none } :=
  ⟨Nat.one_ne_zero, h⟩

theorem Standing.length_le (h : Standing s i client) :
    (s.asked i).length + (s.answered i).length ≤ 1 := by
  cases h with
  | asked hasked hanswered _ => rw [hasked, hanswered]; exact Nat.le_refl 1
  | answered x hasked hanswered _ _ => rw [hasked, hanswered]; exact Nat.le_refl 1

/-- A client that stays at its address or gives it up. -/
theorem Base.setClient (h : Base isp₀ s) {client' : Client} (hclient : s.clients[i]? = some client)
    (hname : client'.name = client.name)
    (hbound : client'.pc.bound = true → client.pc.bound = true) :
    Base isp₀ (s.setClient i client') := by
  have hi : i < s.clients.length := (List.getElem?_eq_some_iff.mp hclient).1
  have hset : ∀ {j name}, (s.setClient i client').Bound j name → s.Bound j name := by
    rintro j name ⟨c, hc, hopen, rfl⟩
    by_cases hij : i = j
    · subst hij
      rw [State.setClient, List.getElem?_set_self hi] at hc
      cases hc
      exact ⟨client, hclient, hbound hopen, hname.symm⟩
    · rw [State.setClient, List.getElem?_set_ne hij] at hc
      exact ⟨c, hc, hopen, rfl⟩
  refine ⟨h.sequential, h.inOrder, ?_, ?_, ?_, h.addressed, ?_⟩
  · intro name j k hj hk
    exact h.names name j k (hset hj) (hset hk)
  · intro j hj
    exact h.known j (by rwa [State.setClient, List.length_set] at hj)
  · intro datagram hmem name j hsender hj
    exact h.senders datagram hmem name j hsender (hset hj)
  · intro processed c peer response hserver
    obtain ⟨hserved, hpeer⟩ := h.reply processed c peer response hserver
    exact ⟨hserved, fun j hj => hpeer j (hset hj)⟩

theorem Inv.setClient (h : Inv isp₀ s) (hclient : s.clients[i]? = some client) (client' : Client)
    (hname : client'.name = client.name) (hbound : client'.pc.bound = true → client.pc.bound = true)
    (hfacts : ClientFacts s i client') : Inv isp₀ (s.setClient i client') := by
  refine ⟨h.toBase.setClient hclient hname hbound, fun j c hc => ?_⟩
  by_cases hij : i = j
  · subst hij
    rw [State.setClient, List.getElem?_set_self (List.getElem?_eq_some_iff.mp hclient).1] at hc
    cases hc
    exact hfacts.same ⟨rfl, rfl, id⟩
  · rw [State.setClient, List.getElem?_set_ne hij] at hc
    exact (h.clients j c hc).same ⟨rfl, rfl, id⟩

theorem asked_send (s : State n) (datagram : Datagram) (i : ℕ) :
    (s.send datagram).asked i =
      s.asked i ++ if datagram.client = some i then [datagram] else [] := by
  rw [State.asked, State.send, List.filter_append, State.asked]
  congr 1
  by_cases hi : datagram.client = some i
  · simp [hi]
  · simp [hi]

theorem Base.send (h : Base isp₀ s) {datagram : Datagram}
    (hsender : ∀ name i, datagram.sender = some name → s.Bound i name → datagram.client = some i)
    (hknown : ∀ i, datagram.client = some i → i < s.clients.length ∧ datagram.sender ≠ none) :
    Base isp₀ (s.send datagram) := by
  refine ⟨h.sequential, ?_, h.names, ?_, ?_, ?_, h.reply⟩
  · unfold State.send
    rw [List.filterMap_append, List.filterMap_append, h.inOrder, List.append_assoc]
  · intro i hi
    obtain ⟨hasked, hanswered⟩ := h.known i hi
    refine ⟨?_, hanswered⟩
    rw [asked_send, hasked, if_neg (fun hclient => ?_)]
    · rfl
    · exact absurd (hknown i hclient).1 (Nat.not_lt.mpr hi)
  · intro other hmem name i hother hi
    rcases List.mem_append.mp hmem with hold | hnew
    · exact h.senders other hold name i hother hi
    · obtain rfl := List.mem_singleton.mp hnew
      exact hsender name i hother hi
  · intro other hmem i hother
    rcases List.mem_append.mp hmem with hold | hnew
    · exact h.addressed other hold i hother
    · obtain rfl := List.mem_singleton.mp hnew
      exact (hknown i hother).2

/-- Another process has its own address. -/
theorem Inv.outside (h : Inv isp₀ s) {sender : Option Text} {text : Text}
    (hfree : sender.any s.inUse = false) : Inv isp₀ (s.send ⟨none, sender, text⟩) := by
  refine ⟨h.toBase.send ?_ ?_, fun i c hc => ?_⟩
  · rintro name i rfl ⟨c, hc, hopen, rfl⟩
    rw [Option.any_some, State.inUse, List.any_eq_false] at hfree
    refine absurd ?_ (hfree c (List.mem_of_getElem? hc))
    rw [hopen, beq_self_eq_true]
    decide
  · rintro i ⟨⟩
  · refine (h.clients i c hc).same ⟨?_, rfl, id⟩
    rw [asked_send, if_neg (by rintro ⟨⟩), List.append_nil]

theorem Inv.sendRequest (h : Inv isp₀ s) (hclient : s.clients[i]? = some client)
    (hpc : client.pc = .send) :
    Inv isp₀ ((s.send ⟨some i, some client.name, client.command⟩).setClient i
      { client with pc := .poll }) := by
  have hi : i < s.clients.length := (List.getElem?_eq_some_iff.mp hclient).1
  have hbound : client.pc.bound = true := by rw [hpc]; rfl
  have hfacts := h.clients i client hclient
  unfold ClientFacts at hfacts
  rw [hpc] at hfacts
  obtain ⟨hcommand, hinbox, hasked, hanswered⟩ := hfacts
  have hbase : Base isp₀ (s.send ⟨some i, some client.name, client.command⟩) := by
    apply h.toBase.send
    · rintro name j ⟨⟩ hj
      exact congrArg some (h.names client.name i j ⟨client, hclient, hbound, rfl⟩ hj)
    · rintro j ⟨⟩
      exact ⟨hi, by rintro ⟨⟩⟩
  refine ⟨hbase.setClient hclient rfl fun _ => hbound, fun j c hc => ?_⟩
  by_cases hij : i = j
  · subst hij
    rw [State.setClient, State.send, List.getElem?_set_self hi] at hc
    cases hc
    refine ⟨hcommand, .asked ?_ hanswered hinbox⟩
    refine (asked_send s _ i).trans ?_
    rw [hasked, if_pos rfl]
    rfl
  · rw [State.setClient, State.send, List.getElem?_set_ne hij] at hc
    refine (h.clients j c hc).same ⟨?_, rfl, id⟩
    refine (asked_send s _ j).trans ?_
    rw [if_neg (fun heq => hij (Option.some.inj heq)), List.append_nil]

theorem Served.response_fits (x : Served n) : Fits x.response := by
  refine Nat.le_trans ?_ (handleDatagram_fits x.answers x.before x.text)
  exact (List.takeWhile_sublist _).length_le

/-- What a client reads is the whole response. -/
theorem Inv.receiveResponse (h : Inv isp₀ s) (hclient : s.clients[i]? = some client)
    (hcommand : clientCommand client.argv = some client.command)
    (hstanding : Standing s i client) {datagram : Text} {inbox : List Text}
    (hinbox : client.inbox = datagram :: inbox) :
    Inv isp₀ (s.setClient i
      { client with
        inbox := inbox
        pc := .exited (exitStatus (datagram.take (controlResponseSize - 1)))
          (some (datagram.take (controlResponseSize - 1))) }) := by
  refine h.setClient hclient _ rfl (by simp [ClientPc.bound]) ?_
  cases hstanding with
  | asked hasked hanswered hempty => rw [hempty] at hinbox; cases hinbox
  | answered x hasked hanswered htext hstands =>
      rcases hstands with hempty | ⟨hresponse, -⟩
      · rw [hempty] at hinbox; cases hinbox
      · rw [hresponse] at hinbox
        cases hinbox
        refine ⟨rfl, hasked, x, hanswered, htext ▸ hcommand, ?_⟩
        exact List.take_of_length_le x.response_fits

theorem Inv.clientStep (h : Inv isp₀ s) (hclient : s.clients[i]? = some client)
    {outcome : Outcome} (hstep : clientStep s i client client.pc outcome = some t) :
    Inv isp₀ t := by
  have hfacts := h.clients i client hclient
  unfold ClientFacts at hfacts
  have give_up : (s.asked i).length + (s.answered i).length ≤ 1 →
      Inv isp₀ (s.setClient i { client with pc := .exited 1 none }) := fun hlength =>
    h.setClient hclient _ rfl (by simp [ClientPc.bound]) (.give_up hlength)
  cases hpc : client.pc with
  | send =>
      rw [hpc] at hfacts hstep
      obtain ⟨hcommand, hinbox, hasked, hanswered⟩ := hfacts
      cases outcome with
      | done => cases hstep; exact h.sendRequest hclient hpc
      | interrupted => cases hstep; exact h
      | timedOut => cases hstep
      | failed =>
          cases hstep
          apply give_up
          rw [hasked, hanswered]
          exact Nat.zero_le _
  | poll =>
      rw [hpc] at hfacts hstep
      obtain ⟨hcommand, hstanding⟩ := hfacts
      cases outcome with
      | done =>
          unfold Session.clientStep at hstep
          split_ifs at hstep
          cases hstep
          exact h.setClient hclient _ rfl (fun _ => by rw [hpc]; rfl)
            ⟨hcommand, hstanding.congr rfl rfl rfl⟩
      | interrupted => cases hstep; exact h
      | timedOut =>
          unfold Session.clientStep at hstep
          split_ifs at hstep
          cases hstep
          exact give_up hstanding.length_le
      | failed => cases hstep; exact give_up hstanding.length_le
  | receive =>
      rw [hpc] at hfacts hstep
      obtain ⟨hcommand, hstanding⟩ := hfacts
      cases outcome with
      | done =>
          unfold Session.clientStep at hstep
          cases hinbox : client.inbox with
          | nil => simp only [hinbox] at hstep; cases hstep
          | cons datagram inbox =>
              simp only [hinbox] at hstep
              cases hstep
              exact h.receiveResponse hclient hcommand hstanding hinbox
      | interrupted => cases hstep; exact h
      | timedOut => cases hstep
      | failed => cases hstep; exact give_up hstanding.length_le
  | exited status response =>
      rw [hpc] at hstep
      cases outcome with
      | done => cases hstep
      | interrupted => cases hstep
      | timedOut => cases hstep
      | failed => cases hstep

/-! ## Starting a client -/

/-- No request and no response is under way for the address. -/
def State.Unused (s : State n) (name : Text) : Prop :=
  (∀ datagram ∈ s.queue, datagram.sender ≠ some name) ∧
    ∀ processed client response, s.server ≠ .reply processed client name response

theorem startClient_facts (hasked : s.asked i = []) (hanswered : s.answered i = [])
    (argv : List Text) (pid : ℕ) (bound : Bool) :
    ClientFacts s i (startClient argv pid bound) := by
  have hlength : (s.asked i).length + (s.answered i).length ≤ 1 := by
    rw [hasked, hanswered]
    exact Nat.zero_le _
  unfold startClient
  split_ifs with hcommand
  · exact ⟨by decide, hlength⟩
  · exact ⟨by decide, hlength⟩
  · obtain ⟨command, hsome⟩ := Option.ne_none_iff_exists'.mp (not_or.mp hcommand).2
    refine ⟨?_, rfl, hasked, hanswered⟩
    rw [hsome]
    rfl

theorem bound_of_startClient {argv : List Text} {pid : ℕ} {bound : Bool}
    (h : (startClient argv pid bound).pc.bound = true) : bound = true := by
  unfold startClient at h
  split_ifs at h with hcommand hbound
  · cases h
  · cases h
  · exact Bool.of_not_eq_false (not_or.mp hbound).2

theorem inUse_iff {name : Text} : s.inUse name = true ↔ ∃ i, s.Bound i name := by
  simp only [State.inUse, List.any_eq_true, List.mem_iff_getElem?, Bool.and_eq_true, beq_iff_eq]
  constructor
  · rintro ⟨client, ⟨i, hi⟩, hbound, hname⟩
    exact ⟨i, client, hi, hbound, hname⟩
  · rintro ⟨i, client, hi, hbound, hname⟩
    exact ⟨client, ⟨i, hi⟩, hbound, hname⟩

theorem Inv.start (h : Inv isp₀ s) {argv : List Text} {pid : ℕ} {bound : Bool}
    (hfree : ¬(bound = true ∧ s.inUse (clientName pid) = true))
    (hunused : s.Unused (clientName pid)) :
    Inv isp₀ { s with clients := s.clients ++ [startClient argv pid bound] } := by
  obtain ⟨hasked, hanswered⟩ := h.known s.clients.length (Nat.le_refl _)
  have hget : ∀ {j c}, (s.clients ++ [startClient argv pid bound])[j]? = some c →
      s.clients[j]? = some c ∨ j = s.clients.length ∧ c = startClient argv pid bound := by
    intro j c hc
    rw [List.getElem?_append] at hc
    split_ifs at hc with hj
    · exact Or.inl hc
    · obtain ⟨hlt, heq⟩ := List.getElem?_eq_some_iff.mp hc
      rw [List.length_singleton] at hlt
      refine Or.inr ⟨by omega, ?_⟩
      rw [← heq, List.getElem_singleton]
  have hold : ∀ {j name},
      State.Bound { s with clients := s.clients ++ [startClient argv pid bound] } j name →
      s.Bound j name ∨ j = s.clients.length ∧ bound = true ∧ name = clientName pid := by
    rintro j name ⟨c, hc, hopen, rfl⟩
    rcases hget hc with hc | ⟨rfl, rfl⟩
    · exact Or.inl ⟨c, hc, hopen, rfl⟩
    · exact Or.inr ⟨rfl, bound_of_startClient hopen, rfl⟩
  have hnew : ∀ {j name}, bound = true → name = clientName pid → ¬ s.Bound j name := by
    rintro j name hbound rfl hj
    exact hfree ⟨hbound, inUse_iff.mpr ⟨j, hj⟩⟩
  refine ⟨⟨h.sequential, h.inOrder, ?_, ?_, ?_, h.addressed, ?_⟩, ?_⟩
  · intro name j k hj hk
    rcases hold hj with hj | ⟨rfl, hbound, hname⟩
    · rcases hold hk with hk | ⟨rfl, hbound, hname⟩
      · exact h.names name j k hj hk
      · exact absurd hj (hnew hbound hname)
    · rcases hold hk with hk | ⟨rfl, -, -⟩
      · exact absurd hk (hnew hbound hname)
      · rfl
  · intro j hj
    apply h.known j
    rw [List.length_append] at hj
    omega
  · intro datagram hmem name j hsender hj
    rcases hold hj with hj | ⟨-, -, rfl⟩
    · exact h.senders datagram hmem name j hsender hj
    · exact absurd hsender (hunused.1 datagram hmem)
  · intro processed client peer response hserver
    obtain ⟨hserved, hpeer⟩ := h.reply processed client peer response hserver
    refine ⟨hserved, fun j hj => ?_⟩
    rcases hold hj with hj | ⟨-, -, rfl⟩
    · exact hpeer j hj
    · exact absurd hserver (hunused.2 processed client response)
  · intro j c hc
    rcases hget hc with hc | ⟨rfl, rfl⟩
    · exact (h.clients j c hc).same ⟨rfl, rfl, id⟩
    · exact (startClient_facts hasked hanswered argv pid bound).same ⟨rfl, rfl, id⟩

/-! ## The server -/

/-- The server turns to nobody. -/
theorem Inv.turn (h : Inv isp₀ s) {pc : ServerPc} (hpc : pc.toward = none)
    (hidle : ∀ processed client peer response, pc ≠ .reply processed client peer response) :
    Inv isp₀ { s with server := pc } := by
  refine ⟨⟨h.sequential, h.inOrder, h.names, h.known, h.senders, h.addressed, ?_⟩, fun i client hclient => ?_⟩
  · intro processed client peer response hserver
    exact absurd hserver (hidle processed client peer response)
  · refine (h.clients i client hclient).same ⟨rfl, rfl, fun htoward => ?_⟩
    rw [hpc] at htoward
    cases htoward

theorem ClientFacts.deliver (h : ClientFacts s i client) {response : Text}
    (hbound : client.pc.bound = true) (htoward : s.server.toward = some i)
    (hresponse : ∃ x ∈ s.served, x.client = some i ∧ x.response = response)
    (hasked : t.asked i = s.asked i) (hanswered : t.answered i = s.answered i)
    (hserver : t.server.toward = none) :
    ClientFacts t i { client with inbox := client.inbox ++ [response] } := by
  obtain ⟨x, hmem, hx, rfl⟩ := hresponse
  have hmem : x ∈ s.answered i := List.mem_filter.mpr ⟨hmem, by simp [hx]⟩
  have hstanding : Standing s i client →
      Standing t i { client with inbox := client.inbox ++ [x.response] } := by
    intro hstanding
    cases hstanding with
    | asked _ hnone _ => rw [hnone] at hmem; cases hmem
    | answered y hask hone htext hinbox =>
        rw [hone] at hmem
        obtain rfl := List.mem_singleton.mp hmem
        rcases hinbox with hempty | ⟨-, hother⟩
        · refine .answered x (hasked.trans hask) (hanswered.trans hone) htext (Or.inr ⟨?_, ?_⟩)
          · rw [hempty]
            rfl
          · rw [hserver]
            rintro ⟨⟩
        · exact absurd htoward hother
  unfold ClientFacts at h ⊢
  cases hpc : client.pc with
  | send =>
      rw [hpc] at h
      rw [h.2.2.2] at hmem
      cases hmem
  | poll => rw [hpc] at h; exact ⟨h.1, (hstanding h.2).congr rfl rfl rfl⟩
  | receive => rw [hpc] at h; exact ⟨h.1, (hstanding h.2).congr rfl rfl rfl⟩
  | exited status response => rw [hpc] at hbound; cases hbound

theorem Inv.deliver (h : Inv isp₀ s) {processed : ℕ} {client : Option ℕ} {peer response : Text}
    (hserver : s.server = .reply processed client peer response) :
    Inv isp₀ { s with
      clients := s.clients.map (Client.deliver peer response)
      server := .receive processed } := by
  obtain ⟨hserved, hpeer⟩ := h.reply processed client peer response hserver
  have hkept : ∀ c : Client, (c.deliver peer response).pc = c.pc ∧
      (c.deliver peer response).name = c.name := by
    intro c
    unfold Client.deliver
    split_ifs
    · exact ⟨rfl, rfl⟩
    · exact ⟨rfl, rfl⟩
  have hold : ∀ {j : ℕ} {c : Client}, (s.clients.map (Client.deliver peer response))[j]? = some c →
      ∃ d : Client, s.clients[j]? = some d ∧ d.deliver peer response = c := by
    intro j c hc
    rwa [List.getElem?_map, Option.map_eq_some_iff] at hc
  have hbound : ∀ {j name}, State.Bound { s with
      clients := s.clients.map (Client.deliver peer response)
      server := .receive processed } j name → s.Bound j name := by
    rintro j name ⟨c, hc, hopen, rfl⟩
    obtain ⟨d, hd, rfl⟩ := hold hc
    obtain ⟨hpc, hname⟩ := hkept d
    exact ⟨d, hd, hpc ▸ hopen, hname.symm⟩
  refine ⟨⟨h.sequential, h.inOrder, ?_, ?_, ?_, h.addressed, ?_⟩, ?_⟩
  · intro name j k hj hk
    exact h.names name j k (hbound hj) (hbound hk)
  · intro j hj
    rw [List.length_map] at hj
    exact h.known j hj
  · intro datagram hmem name j hsender hj
    exact h.senders datagram hmem name j hsender (hbound hj)
  · rintro _ _ _ _ ⟨⟩
  · intro j c hc
    obtain ⟨d, hd, rfl⟩ := hold hc
    by_cases hto : d.pc.bound = true ∧ d.name = peer
    · obtain rfl : client = some j := hpeer j ⟨d, hd, hto⟩
      rw [Client.deliver, if_pos hto]
      exact (h.clients j d hd).deliver hto.1 (by rw [hserver]; rfl) hserved rfl rfl rfl
    · rw [Client.deliver, if_neg hto]
      exact (h.clients j d hd).same ⟨rfl, rfl, by rintro ⟨⟩⟩

/-- A request that was in the queue of the server is handled. -/
theorem ClientFacts.serve (h : ClientFacts s i client) {datagram : Datagram} {x : Served n}
    (hx : x.text = datagram.text.take controlCommandSize)
    (hasked : s.asked i = datagram :: t.asked i) (hanswered : t.answered i = s.answered i ++ [x]) :
    ClientFacts t i client := by
  have hlong : ∀ command : Text, clientCommand client.argv = some command →
      command.take controlCommandSize = command := by
    intro command hcommand
    exact List.take_of_length_le (clientCommand_eq_some.mp hcommand).2.le
  have hstanding : clientCommand client.argv = some client.command → Standing s i client →
      Standing t i client := by
    intro hcommand hstanding
    cases hstanding with
    | asked hask hone hinbox =>
        rw [hasked] at hask
        obtain ⟨rfl, hrest⟩ := List.cons.inj hask
        refine .answered x hrest ?_ ?_ (Or.inl hinbox)
        · rw [hanswered, hone]
          rfl
        · rw [hx]
          exact hlong client.command hcommand
    | answered y hask _ _ _ => rw [hasked] at hask; cases hask
  unfold ClientFacts at h ⊢
  split at h
  · rw [hasked] at h
    cases h.2.2.1
  · exact ⟨h.1, hstanding h.1 h.2⟩
  · exact ⟨h.1, hstanding h.1 h.2⟩
  · refine ⟨h.1, ?_⟩
    have hlength := h.2
    rw [hasked, List.length_cons] at hlength
    rw [hanswered, List.length_append, List.length_singleton]
    omega
  · rw [hasked] at h
    cases h.2.1

/-- The first request leaves the queue. -/
theorem asked_cons {datagram : Datagram} {queue : List Datagram} (hqueue : s.queue = datagram :: queue)
    (hqueue' : t.queue = queue) (i : ℕ) :
    s.asked i = if datagram.client = some i then datagram :: t.asked i else t.asked i := by
  rw [State.asked, hqueue, List.filter_cons, State.asked, hqueue']
  simp only [decide_eq_true_eq]

theorem serve_empty (hqueue : s.queue = []) (processed : ℕ) (answers : Answers) :
    serve s processed answers = { s with server := .frame } := by
  unfold serve
  rw [hqueue]

/-- A datagram without an address is passed over. -/
theorem Inv.pass (h : Inv isp₀ s) {datagram : Datagram} {queue : List Datagram}
    (hqueue : s.queue = datagram :: queue) (hsender : datagram.sender = none) (processed : ℕ) :
    Inv isp₀ { s with queue := queue, server := .receive processed } := by
  have hmem : datagram ∈ s.queue := hqueue ▸ List.mem_cons_self
  have hrest : ∀ other ∈ queue, other ∈ s.queue := fun other hother =>
    hqueue ▸ List.mem_cons_of_mem _ hother
  have hrequest : datagram.request = none := by
    rw [Datagram.request, hsender]
    rfl
  have hasked : ∀ j, State.asked { s with queue := queue, server := .receive processed } j =
      s.asked j := by
    intro j
    rw [asked_cons (t := { s with queue := queue, server := .receive processed }) hqueue rfl,
      if_neg (fun hclient => h.addressed datagram hmem j hclient hsender)]
  refine ⟨⟨h.sequential, ?_, h.names, fun j hj => ?_, ?_, ?_, ?_⟩, fun j c hc => ?_⟩
  · rw [h.inOrder, hqueue, List.filterMap_cons_none hrequest]
  · rw [hasked]
    exact h.known j hj
  · exact fun other hother => h.senders other (hrest other hother)
  · exact fun other hother => h.addressed other (hrest other hother)
  · rintro _ _ _ _ ⟨⟩
  · exact (h.clients j c hc).same ⟨hasked j, rfl, by rintro ⟨⟩⟩

/-- A request is handled, in the state of its turn. -/
theorem Inv.answer (h : Inv isp₀ s) {datagram : Datagram} {queue : List Datagram}
    (hqueue : s.queue = datagram :: queue) {peer : Text} (hsender : datagram.sender = some peer)
    (processed : ℕ) {x : Served n} (hclient : x.client = datagram.client)
    (htext : x.text = datagram.text.take controlCommandSize) (hbefore : x.before = s.isp) :
    Inv isp₀ { s with
      isp := x.after
      queue := queue
      server := .reply processed datagram.client peer x.response
      served := s.served ++ [x] } := by
  have hmem : datagram ∈ s.queue := hqueue ▸ List.mem_cons_self
  have hrest : ∀ other ∈ queue, other ∈ s.queue := fun other hother =>
    hqueue ▸ List.mem_cons_of_mem _ hother
  have hrequest : datagram.request = some x.request := by
    rw [Datagram.request, hsender, Served.request, hclient, htext]
    rfl
  generalize ht : ({ s with
      isp := x.after
      queue := queue
      server := .reply processed datagram.client peer x.response
      served := s.served ++ [x] } : State n) = t
  have hasked := asked_cons (t := t) hqueue (by rw [← ht])
  have hanswered : ∀ j, t.answered j =
      s.answered j ++ if datagram.client = some j then [x] else [] := by
    intro j
    rw [← ht, State.answered, List.filter_append, State.answered]
    congr 1
    by_cases hj : datagram.client = some j
    · simp [hj, hclient]
    · simp [hj, hclient]
  subst ht
  refine ⟨⟨h.sequential.append x hbefore, ?_, h.names, fun j hj => ?_, ?_, ?_, ?_⟩, fun j c hc => ?_⟩
  · rw [h.inOrder, hqueue, List.filterMap_cons_some hrequest, List.map_append, List.append_assoc]
    rfl
  · obtain ⟨hask, hanswer⟩ := h.known j hj
    have hother : datagram.client ≠ some j := by
      intro hj'
      rw [hasked j, if_pos hj'] at hask
      cases hask
    rw [hasked j, if_neg hother] at hask
    rw [hanswered j, if_neg hother, hanswer]
    exact ⟨hask, rfl⟩
  · exact fun other hother => h.senders other (hrest other hother)
  · exact fun other hother => h.addressed other (hrest other hother)
  · rintro _ _ _ _ ⟨⟩
    refine ⟨⟨x, List.mem_append_right _ List.mem_cons_self, hclient, rfl⟩, fun j hj => ?_⟩
    exact h.senders datagram hmem peer j hsender hj
  · by_cases hj : datagram.client = some j
    · apply (h.clients j c hc).serve htext
      · rw [hasked j, if_pos hj]
      · rw [hanswered j, if_pos hj]
    · refine (h.clients j c hc).same ⟨?_, ?_, fun htoward => absurd htoward hj⟩
      · rw [hasked j, if_neg hj]
      · rw [hanswered j, if_neg hj, List.append_nil]

theorem Inv.serve (h : Inv isp₀ s) (processed : ℕ) (answers : Answers) :
    Inv isp₀ (serve s processed answers) := by
  cases hqueue : s.queue with
  | nil =>
      rw [serve_empty hqueue]
      exact h.turn rfl (by rintro _ _ _ _ ⟨⟩)
  | cons datagram queue =>
      cases hsender : datagram.sender with
      | none =>
          have hserve : Session.serve s processed answers =
              { s with queue := queue, server := .receive (processed + 1) } := by
            unfold Session.serve
            rw [hqueue]
            simp only [hsender]
          rw [hserve]
          exact h.pass hqueue hsender (processed + 1)
      | some peer =>
          have hserve : Session.serve s processed answers =
              let x : Served n :=
                ⟨datagram.client, datagram.text.take controlCommandSize, answers, s.isp⟩
              { s with
                isp := x.after
                queue := queue
                server := .reply (processed + 1) datagram.client peer x.response
                served := s.served ++ [x] } := by
            unfold Session.serve
            rw [hqueue]
            simp only [hsender]
          rw [hserve]
          exact h.answer hqueue hsender (processed + 1) rfl rfl rfl

/-! ## Runs -/

theorem Inv.serverStep (h : Inv isp₀ s) {l : ServerLabel}
    (hstep : serverStep s s.server l = some t) : Inv isp₀ t := by
  cases hserver : s.server with
  | frame =>
      rw [hserver] at hstep
      cases l with
      | call => cases hstep; exact h.turn rfl (by rintro _ _ _ _ ⟨⟩)
      | receive answers => cases hstep
      | reply => cases hstep
      | interrupted => cases hstep
      | failed => cases hstep
  | receive processed =>
      rw [hserver] at hstep
      cases l with
      | call => cases hstep
      | receive answers =>
          simp only [Session.serverStep] at hstep
          split_ifs at hstep with hlt
          · cases hstep; exact h.serve processed answers
          · cases hstep; exact h.turn rfl (by rintro _ _ _ _ ⟨⟩)
      | reply => cases hstep
      | interrupted => cases hstep
      | failed => cases hstep; exact h.turn rfl (by rintro _ _ _ _ ⟨⟩)
  | reply processed client peer response =>
      rw [hserver] at hstep
      cases l with
      | call => cases hstep
      | receive answers => cases hstep
      | reply => cases hstep; exact h.deliver hserver
      | interrupted => cases hstep; exact h
      | failed => cases hstep; exact h.turn rfl (by rintro _ _ _ _ ⟨⟩)

/-- A process does not start with the id of another one while a request or a response of that one is
under way. -/
def Label.Fresh : Label → State n → Prop
  | .start _ pid _, s => s.Unused (clientName pid)
  | _, _ => True

theorem Inv.step {l : Label} (h : Inv isp₀ s) (hfresh : l.Fresh s) (hstep : step l s = some t) :
    Inv isp₀ t := by
  cases l with
  | start argv pid bound =>
      simp only [Session.step] at hstep
      split_ifs at hstep with hfree
      cases hstep
      exact h.start hfree hfresh
  | client i outcome =>
      obtain ⟨client, hclient, hnext⟩ := Option.bind_eq_some_iff.mp hstep
      exact h.clientStep hclient hnext
  | server l => exact h.serverStep hstep
  | outside sender text =>
      simp only [Session.step] at hstep
      split_ifs at hstep with hfree
      cases hstep
      exact h.outside (Bool.not_eq_true _ ▸ hfree)

theorem reachable_inv (h : ReachableBy (control isp₀) Label.Fresh s) : Inv isp₀ s :=
  h.invariant (fun _ hs => hs ▸ inv_initial isp₀) fun _ _ _ hs hfresh hstep => hs.step hfresh hstep

structure Sound (isp₀ : Isp.State n) (s : State n) : Prop where
  sequential : Sequential s.isp isp₀ s.served
  inOrder : s.sent.filterMap Datagram.request =
    s.served.map Served.request ++ s.queue.filterMap Datagram.request
  atMostOnce : ∀ i, (s.answered i).length ≤ 1
  own : ∀ (i : ℕ) (client : Client) (status : ℕ) (response : Text), s.clients[i]? = some client →
    client.pc = .exited status (some response) →
      status = exitStatus response ∧
        ∃ x, s.answered i = [x] ∧ clientCommand client.argv = some x.text ∧ response = x.response
  failed : ∀ (i : ℕ) (client : Client) (status : ℕ), s.clients[i]? = some client → client.pc = .exited status none →
    status ≠ 0

theorem ClientFacts.length_le (h : ClientFacts s i client) : (s.answered i).length ≤ 1 := by
  unfold ClientFacts at h
  split at h
  · rw [h.2.2.2]
    exact Nat.zero_le 1
  · exact Nat.le_trans (Nat.le_add_left _ _) h.2.length_le
  · exact Nat.le_trans (Nat.le_add_left _ _) h.2.length_le
  · exact Nat.le_trans (Nat.le_add_left _ _) h.2
  · obtain ⟨x, hx, -⟩ := h.2.2
    rw [hx]
    exact Nat.le_refl 1

/-- The requests are handled one after the other in the order in which they were sent, none of them
twice, and the response that a client prints is the one to its own command. -/
theorem sessions_sound (h : ReachableBy (control isp₀) Label.Fresh s) : Sound isp₀ s := by
  have hinv := reachable_inv h
  refine ⟨hinv.sequential, hinv.inOrder, fun i => ?_, ?_, ?_⟩
  · cases hclient : s.clients[i]? with
    | none =>
        rw [(hinv.known i (List.getElem?_eq_none_iff.mp hclient)).2]
        exact Nat.zero_le 1
    | some client => exact (hinv.clients i client hclient).length_le
  · intro i client status response hclient hpc
    have hfacts := hinv.clients i client hclient
    unfold ClientFacts at hfacts
    rw [hpc] at hfacts
    exact ⟨hfacts.1, hfacts.2.2⟩
  · intro i client status hclient hpc
    have hfacts := hinv.clients i client hclient
    unfold ClientFacts at hfacts
    rw [hpc] at hfacts
    exact hfacts.1

/-! ## What the exit status says -/

theorem exitStatus_err (text : Text) :
    exitStatus (cString (Isp.reply ("ERR".toList ++ text))) = 1 := by
  have hreply : Isp.reply ("ERR".toList ++ text) = "ERR".toList ++ text.take 4092 := rfl
  rw [hreply, cString_append (by decide)]
  rfl

theorem exitStatus_setResult (result : Isp.State n × ℤ) :
    exitStatus (cString (setResult result).2) = 0 ↔ result.2 = 0 := by
  unfold setResult formatSetResult
  split_ifs with hperm hret
  · rw [show exitStatus (cString (Isp.reply "ERR manual_mode_required".toList)) = 1 from rfl, hperm]
    decide
  · have herr : "ERR apply_failed code=".toList = "ERR".toList ++ " apply_failed code=".toList := rfl
    dsimp only
    rw [replyCode, herr, List.append_assoc, exitStatus_err]
    exact iff_of_false Nat.one_ne_zero hret
  · exact iff_of_true rfl (not_not.mp hret)

theorem exitStatus_replyResult {ok err : String} (hok : exitStatus (cString (Isp.reply ok.toList)) = 0)
    {rest : Text} (herr : err.toList = "ERR".toList ++ rest) (result : Isp.State n × ℤ) :
    exitStatus (cString (replyResult ok err result).2) = 0 ↔ result.2 = 0 := by
  unfold replyResult
  split_ifs with hret
  · rw [replyCode, herr, List.append_assoc, exitStatus_err]
    exact iff_of_false Nat.one_ne_zero hret
  · exact iff_of_true hok (not_not.mp hret)

/-- What the setter of a command does, and its code. -/
def carryOut (answers : Answers) (s : Isp.State n) : Command → Isp.State n × ℤ
  | .auto => setAutoExposure answers s
  | .manual us value => setManualIso answers s us value
  | .exptime value => setManualValue answers s 0 value
  | .iso value => setManualValue answers s 1 value
  | .again value => setManualValue answers s 2 value
  | .dgain value => setManualValue answers s 3 value
  | .ispdgain value => setManualValue answers s 4 value
  | .gains a d i => setManualGains answers s a d i
  | .noiseSave => saveNoiseSnapshot answers s
  | .noiseRestore => restoreNoiseSnapshot answers s
  | .noiseSet moduleName isoIndex value =>
      setNoiseValue answers s moduleName isoIndex.toNat value.toNat

theorem run_eq_carryOut (answers : Answers) (s : Isp.State n) (command : Command) :
    (command.run answers s).1 = (carryOut answers s command).1 ∧
      (exitStatus (cString (command.run answers s).2) = 0 ↔ (carryOut answers s command).2 = 0) := by
  cases command with
  | noiseSave => exact ⟨rfl, exitStatus_replyResult rfl rfl _⟩
  | noiseRestore => exact ⟨rfl, exitStatus_replyResult rfl rfl _⟩
  | noiseSet moduleName isoIndex value => exact ⟨rfl, exitStatus_replyResult rfl rfl _⟩
  | auto => exact ⟨rfl, exitStatus_setResult _⟩
  | manual us value => exact ⟨rfl, exitStatus_setResult _⟩
  | exptime value => exact ⟨rfl, exitStatus_setResult _⟩
  | iso value => exact ⟨rfl, exitStatus_setResult _⟩
  | again value => exact ⟨rfl, exitStatus_setResult _⟩
  | dgain value => exact ⟨rfl, exitStatus_setResult _⟩
  | ispdgain value => exact ⟨rfl, exitStatus_setResult _⟩
  | gains a d i => exact ⟨rfl, exitStatus_setResult _⟩

/-- A client that spells a command and hears of it has had it carried out, once, and exits with 0 if
and only if the setter returned 0. -/
theorem command_carried_out (h : ReachableBy (control isp₀) Label.Fresh s)
    (hclient : s.clients[i]? = some client) {command : Command}
    (hargv : ∀ argument ∈ client.argv, '\x00' ∉ argument)
    (hspells : Spells n (client.argv.flatMap tokens) command) {status : ℕ} {response : Text}
    (hpc : client.pc = .exited status (some response)) :
    ∃ x, s.answered i = [x] ∧ x.after = (carryOut x.answers x.before command).1 ∧
      (status = 0 ↔ (carryOut x.answers x.before command).2 = 0) := by
  obtain ⟨hstatus, x, hx, hcommand, rfl⟩ := (sessions_sound h).own i client status response hclient hpc
  have hasks : Asks n x.text command := by
    refine ⟨(clientCommand_eq_some.mp hcommand).2, ?_⟩
    rwa [tokens_clientCommand hargv hcommand]
  have hrun : handleDatagram x.answers x.before x.text = command.run x.answers x.before :=
    handleDatagram_of_asks hasks
  obtain ⟨hafter, hcode⟩ := run_eq_carryOut x.answers x.before command
  refine ⟨x, hx, ?_, ?_⟩
  · rw [Served.after, hrun, hafter]
  · rw [hstatus, Served.response, hrun]
    exact hcode

/-! ## A session -/

/-- A client asks for automatic exposure and gets its response. -/
def autoSession : List Label :=
  [.start ["auto".toList] 7 true, .client 0 .done, .server .call, .server (.receive .all),
    .server .reply, .client 0 .done, .client 0 .done]

theorem reachable_autoSession : ∃ s : State 1,
    ReachableBy (control (Isp.State.zero 1)) Label.Fresh s ∧
      s.clients = [⟨["auto".toList], clientName 7, "auto".toList, [],
        .exited 0 (some "OK applied".toList)⟩] := by
  have hrun : ((exec step autoSession (State.initial (Isp.State.zero 1))).map State.clients) =
      some [⟨["auto".toList], clientName 7, "auto".toList, [],
        .exited 0 (some "OK applied".toList)⟩] := by
    rfl
  obtain ⟨s, hexec, hclients⟩ := Option.map_eq_some_iff.mp hrun
  obtain ⟨t, hfirst, hrest⟩ := Option.bind_eq_some_iff.mp hexec
  have hstart : ReachableBy (control (Isp.State.zero 1)) Label.Fresh t := by
    have hunused : (State.initial (Isp.State.zero 1)).Unused (clientName 7) := by
      constructor
      · intro datagram hmem
        cases hmem
      · rintro processed client response ⟨⟩
    exact ReachableBy.step (l := .start ["auto".toList] 7 true) (.start rfl) hunused hfirst
  refine ⟨s, hstart.exec (fun l hl s => ?_) hrest, hclients⟩
  have hfresh : ∀ l ∈ autoSession.tail, ∀ s : State 1, l.Fresh s := by
    simp [autoSession, Label.Fresh]
  exact hfresh l hl s

theorem sessions_sound_autoSession : ∃ s : State 1, Sound (Isp.State.zero 1) s := by
  obtain ⟨s, h, -⟩ := reachable_autoSession
  exact ⟨s, sessions_sound h⟩

theorem command_carried_out_autoSession : ∃ (s : State 1) (x : Served 1), s.answered 0 = [x] ∧
    (carryOut x.answers x.before .auto).2 = 0 := by
  obtain ⟨s, h, hclients⟩ := reachable_autoSession
  obtain ⟨x, hx, -, hstatus⟩ := command_carried_out h (i := 0) (by rw [hclients]; rfl) (by decide)
    Spells.auto rfl
  exact ⟨s, x, hx, hstatus.mp rfl⟩

/-- The id of a client whose time is up is used again while its request waits. -/
def reusedSession : List Label :=
  [.start ["auto".toList] 7 true, .client 0 .done, .client 0 .timedOut,
    .start ["help".toList] 7 true, .server .call, .server (.receive .all), .server .reply,
    .client 1 .done, .client 1 .done, .client 1 .done]

example : (exec step reusedSession (State.initial (Isp.State.zero 1))).map
    (fun s => s.clients.map Client.pc) =
      some [.exited 1 none, .exited 0 (some "OK applied".toList)] := by
  rfl

end Sg200x.Isp.Session
