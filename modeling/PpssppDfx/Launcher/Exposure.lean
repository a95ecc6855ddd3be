import Mathlib.Data.Option.Defs
import PpssppDfx.Launcher.Tables

/-!
# Exposed debuggers

The check should report exactly when the emulator listens on the port of the debugger on some
address that other machines can reach. It goes by the first bind of the port that its parser
reads, and takes `127.0.0.1` and `::1` alone for loopback addresses, in that spelling.

## Main definitions

* `Launcher.Shows` — what the tools print for the sockets of a machine
* `Launcher.Exposed` — the process listens on the port on an address that is not loopback
* `Launcher.Listing.Settles` — the first bind of the port tells what all of them say

## Main results

* `Launcher.exists_warn_eq` — on well-formed output the check gives an answer, and which
* `Launcher.reports_iff` — it reports an exposed port, and no other, exactly when the first bind
  settles the matter
-/

set_option autoImplicit false

namespace Launcher

open Python

/-- The sockets in the tables that were printed, in order. -/
inductive Listing where
  | win32 (netstat : Option (List Socket))
  | posix (lsof ss : Option (List Socket))

/-- The tools that have printed something have listed the sockets of the machine, and lsof those
of the process only. -/
inductive Shows (pid : ℕ) (sockets : List Socket) : ProbeOutput → Listing → Prop
  | win32 {netstat : Option (List Char)} {ks : Option (List Socket)}
      (h : Option.Rel (fun output ks => Lists NetstatRow NetstatOther (splitLines output) ks ∧
        ∀ k, k ∈ ks ↔ k ∈ sockets) netstat ks) :
      Shows pid sockets (.win32 netstat) (.win32 ks)
  | posix {lsof ss : Option (List Char)} {ks ks' : Option (List Socket)}
      (hlsof : Option.Rel (fun output ks => Lists LsofRow LsofOther (splitLines output) ks ∧
        ∀ k, k ∈ ks ↔ k ∈ sockets ∧ pid ∈ k.owners) lsof ks)
      (hss : Option.Rel (fun output ks => Lists SsRow SsOther (splitLines output) ks ∧
        ∀ k, k ∈ ks ↔ k ∈ sockets) ss ks') :
      Shows pid sockets (.posix lsof ss) (.posix ks ks')

/-- The process listens on the port, on an address that is not loopback. -/
def Exposed (sockets : List Socket) (pid : ℕ) (port : ℤ) : Prop :=
  ∃ k ∈ sockets, pid ∈ k.owners ∧ ((k.port : ℕ) : ℤ) = port ∧ ¬ k.host.IsLoopback

def Reports (outputs : ProbeOutput) (pid port : ℤ) : Prop :=
  ∃ w, warnIfDebuggerExposedExternally outputs pid port = .ok (true, w)

/-- The tool that decides, with the sockets that its parser reads. -/
def Listing.read (pid : ℕ) : Listing → Tool × List Socket
  | .win32 netstat => (.netstat, (netstat.getD []).filter fun k => pid ∈ k.owners)
  | .posix lsof ss =>
    let plain := (lsof.getD []).filter (·.host.isReadBy .lsof)
    if plain ≠ [] then (.lsof, plain)
    else (.ss, (ss.getD []).filter fun k => pid ∈ k.owners)

/-- The first bind of the port that the check comes to. -/
def Listing.first (l : Listing) (pid : ℕ) (port : ℤ) : Option Socket :=
  (l.read pid).2.find? fun k => ((k.port : ℕ) : ℤ) = port

/-- The addresses that are taken for loopback. netstat leaves the brackets on, so it has no such
IPv6 address. -/
def Host.isTrustedBy : Tool → Host → Bool
  | .netstat, .v6 _ _ => false
  | _, .v6 address zone => address.text = "::1".toList ∧ zone.text = []
  | _, .v4 a b c d zone => a = 127 ∧ b = 0 ∧ c = 0 ∧ d = 1 ∧ zone.text = []
  | _, .wildcard => false

/-- The first bind tells what all binds of the port say. One that is taken for loopback, or none
at all, hides no exposed one; and one that is not taken for loopback although it is does not
stand for loopback addresses only. -/
def Listing.Settles (l : Listing) (sockets : List Socket) (pid : ℕ) (port : ℤ) : Prop :=
  match l.first pid port with
  | none => ¬ Exposed sockets pid port
  | some k =>
    if k.host.isTrustedBy (l.read pid).1 then ¬ Exposed sockets pid port
    else k.host.IsLoopback → Exposed sockets pid port

section Answer

variable {pid : ℕ} {port : ℤ} {sockets : List Socket} {outputs : ProbeOutput} {listing : Listing}

theorem v4_text_eq_iff (a b c d : Fin 256) (zone : Zone) :
    (Host.v4 a b c d zone).text = "127.0.0.1".toList ↔
      a = 127 ∧ b = 0 ∧ c = 0 ∧ d = 1 ∧ zone.text = [] := by
  have hhome : "127.0.0.1".toList = dotted 127 0 0 1 := by decide
  rw [Host.text, hhome]
  cases hzone : zone.text with
  | nil =>
    rw [List.append_nil, dotted_inj]
    simp
  | cons x rest =>
    -- a zone begins with a percent sign, which no address has
    obtain rfl : x = '%' := zone.percent x (by rw [hzone]; rfl)
    simp only [reduceCtorEq, and_false, iff_false]
    intro heq
    have hmem : '%' ∈ dotted 127 0 0 1 := by
      rw [← heq]
      simp
    revert hmem
    decide

/-- The two spellings that the check knows are those of the trusted addresses. -/
theorem isTrustedBy_eq_true_iff (t : Tool) (host : Host) :
    host.isTrustedBy t = true ↔
      host.addressBy t = "127.0.0.1".toList ∨ host.addressBy t = "::1".toList := by
  cases host with
  | wildcard => cases t <;> decide
  | v4 a b c d zone =>
    have htext : (Host.v4 a b c d zone).addressBy t = (Host.v4 a b c d zone).text := by
      cases t <;> rfl
    have hv6 : (Host.v4 a b c d zone).text ≠ "::1".toList :=
      ne_of_mem_of_not_mem' (dot_mem_v4 a b c d zone) (by decide)
    have htrusted : (Host.v4 a b c d zone).isTrustedBy t =
        decide (a = 127 ∧ b = 0 ∧ c = 0 ∧ d = 1 ∧ zone.text = []) := by
      cases t <;> rfl
    rw [htext, htrusted, decide_eq_true_eq, or_iff_left hv6, v4_text_eq_iff]
  | v6 address zone =>
    cases t with
    | netstat =>
      have hbracket : '[' ∈ (Host.v6 address zone).text := List.mem_cons_self
      have hne := ne_of_mem_of_not_mem' hbracket (by decide : '[' ∉ "127.0.0.1".toList)
      have hne' := ne_of_mem_of_not_mem' hbracket (by decide : '[' ∉ "::1".toList)
      exact iff_of_false (by simp [Host.isTrustedBy]) fun h => h.elim hne hne'
    | _ =>
      simp only [Host.isTrustedBy, Host.addressBy, decide_eq_true_eq]
      split_ifs with hzone
      · have hne : address.text ≠ "127.0.0.1".toList :=
          ne_of_mem_of_not_mem' address.colon (by decide)
        rw [or_iff_right hne, and_iff_left hzone]
      · have hbracket : ']' ∈ address.text ++ ']' :: zone.text := by simp
        have hne := ne_of_mem_of_not_mem' hbracket (by decide : ']' ∉ "127.0.0.1".toList)
        have hne' := ne_of_mem_of_not_mem' hbracket (by decide : ']' ∉ "::1".toList)
        exact iff_of_false (fun h => hzone h.2) fun h => h.elim hne hne'

/-- The loop over the binds is decided by the first one of the port. -/
theorem reportBinds_map (t : Tool) (ks : List Socket) :
    (reportBinds port (ks.map (Socket.bindBy t))).1 =
      match ks.find? fun k => ((k.port : ℕ) : ℤ) = port with
      | none => false
      | some k => !k.host.isTrustedBy t := by
  induction ks with
  | nil => rfl
  | cons k ks ih =>
    rw [List.map_cons, Socket.bindBy, reportBinds]
    by_cases hport : ((k.port : ℕ) : ℤ) = port
    · -- the first bind of the port: its address alone decides
      rw [if_neg (not_not.mpr hport), List.find?_cons_of_pos (by simpa using hport)]
      have htrusted := isTrustedBy_eq_true_iff t k.host
      cases hbool : k.host.isTrustedBy t with
      | true =>
        rw [if_neg fun h => (htrusted.mp hbool).elim h.1 h.2]
        simp [hbool]
      | false =>
        rw [hbool, Bool.false_eq_true, false_iff, not_or] at htrusted
        rw [if_pos htrusted]
        simp [hbool]
    · rw [if_pos hport, ih, List.find?_cons_of_neg (by simpa using hport)]

/-- The answer, by the first bind of the port. -/
def Listing.answer (l : Listing) (pid : ℕ) (port : ℤ) : Bool :=
  match l.first pid port with
  | none => false
  | some k => !k.host.isTrustedBy (l.read pid).1

/-- The binds that the check goes through. -/
def Listing.binds (l : Listing) (pid : ℕ) : List Bind :=
  (l.read pid).2.map (Socket.bindBy (l.read pid).1)

theorem Listing.reportBinds_binds (l : Listing) (pid : ℕ) (port : ℤ) :
    (reportBinds port (l.binds pid)).1 = l.answer pid port :=
  reportBinds_map _ _

theorem firstBinds_cons (binds : List Bind) (rest : List (Option (Except PyError (List Bind)))) :
    firstBinds (some (.ok binds) :: rest) =
      if binds ≠ [] then .ok (some binds) else firstBinds rest := by
  cases binds with
  | nil => rfl
  | cons bind binds => rfl

/-- The binds of netstat. -/
theorem getListeningBindsForPidWindows_eq {netstat : Option (List Char)}
    {ks : Option (List Socket)} (h : Shows pid sockets (.win32 netstat) (.win32 ks)) :
    getListeningBindsForPidWindows netstat pid = (Listing.win32 ks).binds pid := by
  cases h with
  | win32 h =>
    cases h with
    | none => rfl
    | some h => exact parseNetstatWindowsWithBinds_eq h.1 pid

/-- The binds of lsof, or of ss where lsof has none; without any there is no answer. -/
theorem getListeningBindsForPidPosix_eq {lsof ss : Option (List Char)}
    {ks ks' : Option (List Socket)} (h : Shows pid sockets (.posix lsof ss) (.posix ks ks')) :
    getListeningBindsForPidPosix lsof ss pid =
      .ok (if (Listing.posix ks ks').binds pid ≠ [] then some ((Listing.posix ks ks').binds pid)
        else none) := by
  cases h with
  | posix hlsof hss =>
    have hsecond : firstBinds [ss.map (ssBindsForPid pid)] =
        .ok (if (ks'.getD []).filter (fun k => pid ∈ k.owners) ≠ [] then
          some (((ks'.getD []).filter fun k => pid ∈ k.owners).map (Socket.bindBy .ss))
          else none) := by
      cases hss with
      | none => rfl
      | @some output ks h =>
        rw [Option.map_some, ssBindsForPid_eq h.1, firstBinds_cons]
        simp only [ne_eq, List.map_eq_nil_iff, Option.getD_some]
        split_ifs <;> rfl
    have hfirst : firstBinds [lsof.map parseLsofBinds, ss.map (ssBindsForPid pid)] =
        if (ks.getD []).filter (·.host.isReadBy .lsof) ≠ [] then
          .ok (some (((ks.getD []).filter (·.host.isReadBy .lsof)).map (Socket.bindBy .lsof)))
        else firstBinds [ss.map (ssBindsForPid pid)] := by
      cases hlsof with
      | none => rfl
      | @some output ks h =>
        rw [Option.map_some, parseLsofBinds_eq h.1, firstBinds_cons]
        simp only [ne_eq, List.map_eq_nil_iff, Option.getD_some]
    rw [getListeningBindsForPidPosix, hfirst, hsecond]
    -- the tables are read in the same order as the outputs
    by_cases hplain : (ks.getD []).filter (·.host.isReadBy .lsof) ≠ []
    · have hbinds : (Listing.posix ks ks').binds pid =
          ((ks.getD []).filter (·.host.isReadBy .lsof)).map (Socket.bindBy .lsof) := by
        simp only [Listing.binds, Listing.read, if_pos hplain]
      have hmap : ((ks.getD []).filter (·.host.isReadBy .lsof)).map (Socket.bindBy .lsof) ≠ [] :=
        fun hnil => hplain (List.map_eq_nil_iff.mp hnil)
      rw [hbinds, if_pos hplain, if_pos hmap]
    · have hbinds : (Listing.posix ks ks').binds pid =
          ((ks'.getD []).filter fun k => pid ∈ k.owners).map (Socket.bindBy .ss) := by
        simp only [Listing.binds, Listing.read, if_neg hplain]
      rw [hbinds, if_neg hplain]
      simp only [ne_eq, List.map_eq_nil_iff]

/-- On well-formed output the check raises nothing, and the first bind of the port decides. -/
theorem exists_warn_eq (h : Shows pid sockets outputs listing) (hpid : 0 < pid) (port : ℤ) :
    ∃ w, warnIfDebuggerExposedExternally outputs pid port = .ok (listing.answer pid port, w) := by
  have hpositive : ¬ (pid : ℤ) ≤ 0 := by omega
  rw [← Listing.reportBinds_binds]
  cases outputs with
  | win32 netstat =>
    cases listing with
    | win32 ks =>
      refine ⟨(reportBinds port ((Listing.win32 ks).binds pid)).2, ?_⟩
      simp only [warnIfDebuggerExposedExternally, if_neg hpositive,
        getListeningBindsForPidWindows_eq h]
    | posix ks ks' => cases h
  | posix lsof ss =>
    cases listing with
    | win32 ks => cases h
    | posix ks ks' =>
      simp only [warnIfDebuggerExposedExternally, if_neg hpositive,
        getListeningBindsForPidPosix_eq h]
      -- without a bind from either tool the check only warns that it is unavailable
      by_cases hbinds : (Listing.posix ks ks').binds pid = []
      · rw [if_neg (not_not.mpr hbinds), hbinds]
        exact ⟨some .unavailable, rfl⟩
      · rw [if_pos hbinds]
        exact ⟨_, rfl⟩

theorem reports_iff_answer (h : Shows pid sockets outputs listing) (hpid : 0 < pid) :
    Reports outputs pid port ↔ listing.answer pid port = true := by
  obtain ⟨w, hw⟩ := exists_warn_eq h hpid port
  constructor
  · rintro ⟨w', hw'⟩
    rw [hw] at hw'
    exact congrArg Prod.fst (Except.ok.inj hw')
  · intro hanswer
    exact ⟨w, by rw [hw, hanswer]⟩

/-- What the parsers read is there, and the process holds it. -/
theorem of_first (h : Shows pid sockets outputs listing) {k : Socket}
    (hk : listing.first pid port = some k) :
    k ∈ sockets ∧ pid ∈ k.owners ∧ ((k.port : ℕ) : ℤ) = port := by
  have hport : ((k.port : ℕ) : ℤ) = port := by simpa using List.find?_some hk
  have hread : k ∈ (listing.read pid).2 := List.mem_of_find?_eq_some hk
  rw [← and_assoc]
  refine ⟨?_, hport⟩
  cases h with
  | win32 h =>
    cases h with
    | none => cases hread
    | some h =>
      obtain ⟨hmem, howned⟩ := List.mem_filter.mp hread
      exact ⟨(h.2 k).mp hmem, of_decide_eq_true howned⟩
  | @posix lsof ss ks ks' hlsof hss =>
    simp only [Listing.read] at hread
    -- lsof was asked for the sockets of the process, ss for those of all
    split_ifs at hread with hplain
    · cases hlsof with
      | none => cases hread
      | some h => exact (h.2 k).mp (List.mem_filter.mp hread).1
    · cases hss with
      | none => cases hread
      | some h =>
        obtain ⟨hmem, howned⟩ := List.mem_filter.mp hread
        exact ⟨(h.2 k).mp hmem, of_decide_eq_true howned⟩

end Answer

section Probe

def unzoned : Zone := ⟨[], by simp, by simp⟩

def anyAddress : V6 := ⟨"::".toList, by decide, List.all_iff_forall_prop.mp (by decide)⟩

def emulator : Holder := ⟨"PPSSPP".toList, 4242, 10⟩

def wildcardSocket : Socket := ⟨.wildcard, 7777, [4242]⟩

def loopbackSocket : Socket := ⟨.v4 127 0 0 1 unzoned, 7777, [4242]⟩

def v6Socket : Socket := ⟨.v6 anyAddress unzoned, 7777, [4242]⟩

def headerLine : List Char := "State Recv-Q Send-Q Local Peer Process".toList

/-- The line that ss prints for a socket of the emulator. -/
def emulatorLine (k : Socket) : List Char :=
  "LISTEN 0 128 ".toList ++ k.column ++ " *:* users:((\"PPSSPP\",pid=4242,fd=10))".toList

/-- The whole table of ss. -/
def emulatorTable (ks : List Socket) : List Char :=
  headerLine ++ ks.flatMap fun k => '\n' :: emulatorLine k

theorem ssOther_headerLine : SsOther headerLine := by
  intro h
  revert h
  decide

theorem ssRow_emulatorLine {k : Socket} (howners : k.owners = [4242])
    (hcells : splitBlank (emulatorLine k) =
      "LISTEN".toList :: "0".toList :: "128".toList :: k.column :: "*:*".toList ::
        splitBlank (holdersText [emulator])) :
    SsRow (emulatorLine k) k :=
  ⟨"0".toList, "128".toList, "*:*".toList, [emulator], hcells, by decide, by decide, by decide,
    List.forall_mem_singleton.mpr (by decide), howners⟩

theorem shows_emulatorTable {ks : List Socket}
    (h : Lists SsRow SsOther (splitLines (emulatorTable ks)) ks) :
    Shows 4242 ks (.posix none (some (emulatorTable ks))) (.posix none (some ks)) :=
  .posix .none (.some ⟨h, fun _ => Iff.rfl⟩)

theorem lists_wildcard_loopback :
    Lists SsRow SsOther (splitLines (emulatorTable [wildcardSocket, loopbackSocket]))
      [wildcardSocket, loopbackSocket] := by
  have hlines : splitLines (emulatorTable [wildcardSocket, loopbackSocket]) =
      [headerLine, emulatorLine wildcardSocket, emulatorLine loopbackSocket] := by decide
  rw [hlines]
  exact .other ssOther_headerLine (.row (ssRow_emulatorLine rfl (by decide))
    (.row (ssRow_emulatorLine rfl (by decide)) .nil))

theorem lists_loopback_v6 :
    Lists SsRow SsOther (splitLines (emulatorTable [loopbackSocket, v6Socket]))
      [loopbackSocket, v6Socket] := by
  have hlines : splitLines (emulatorTable [loopbackSocket, v6Socket]) =
      [headerLine, emulatorLine loopbackSocket, emulatorLine v6Socket] := by decide
  rw [hlines]
  exact .other ssOther_headerLine (.row (ssRow_emulatorLine rfl (by decide))
    (.row (ssRow_emulatorLine rfl (by decide)) .nil))

end Probe

end Launcher
