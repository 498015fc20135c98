import CallWatch.Fault.Target
import CallWatch.Filter.Endpoint
import CallWatch.Proofs.Text.Numerals
import Mathlib.Data.List.TakeWhile

namespace CallWatch

namespace Text

theorem splitLast?_append {sep : Char} (before : List Char) {after : List Char}
    (h : sep ∉ after) : splitLast? sep (before ++ sep :: after) = some (before, after) := by
  have hafter : ∀ c ∈ after.reverse, decide (c ≠ sep) = true := fun c hc =>
    decide_eq_true fun he => h (he ▸ List.mem_reverse.mp hc)
  rw [splitLast?, List.reverse_append, List.reverse_cons, List.append_assoc,
    List.singleton_append, List.dropWhile_append_of_pos hafter,
    List.takeWhile_append_of_pos hafter]
  simp

-- A text is split at the separator behind which there is no other.
theorem splitLast?_eq_some_iff {sep : Char} {cs before after : List Char} :
    splitLast? sep cs = some (before, after) ↔ cs = before ++ sep :: after ∧ sep ∉ after := by
  constructor
  · intro h
    have happend := List.takeWhile_append_dropWhile (p := (· ≠ sep)) (l := cs.reverse)
    have hbehind : sep ∉ cs.reverse.takeWhile (· ≠ sep) := fun hmem => by
      simpa using List.mem_takeWhile_imp hmem
    rw [splitLast?] at h
    split at h
    · cases h
    · rename_i c front hdrop
      have hsep : c = sep := by
        have hhead := List.head?_dropWhile_not (· ≠ sep) cs.reverse
        rw [hdrop] at hhead
        simpa using hhead
      obtain ⟨rfl, rfl⟩ := Prod.mk.inj (Option.some.inj h)
      have hcs := congrArg List.reverse happend
      rw [hdrop, hsep, List.reverse_append, List.reverse_cons, List.reverse_reverse,
        List.append_assoc, List.singleton_append] at hcs
      exact ⟨hcs.symm, fun hmem => hbehind (List.mem_reverse.mp hmem)⟩
  · rintro ⟨rfl, hsep⟩
    exact splitLast?_append before hsep

end Text

-- The names of a socket are its host and the address that the host resolved to.
def Socket.Named (s : Socket) (name : String) : Prop :=
  name = s.host ∨ s.resolved = some name

theorem Socket.isHost_iff (s : Socket) (name : String) : s.isHost name ↔ s.Named name := by
  simp only [isHost, Named, Bool.or_eq_true, decide_eq_true_eq, eq_comm (a := name)]

namespace EndpointFilter

-- `address` is `host` with a colon and a numeral for the port behind it.
def AtPort (host : String) (port : UInt16) (address : String) : Prop :=
  ∃ numeral, Text.Spells numeral port.toNat ∧ address = host ++ ":" ++ String.ofList numeral

theorem atPort_showNat (host : String) (port : UInt16) :
    AtPort host port (host ++ ":" ++ Text.showNat port.toNat) :=
  ⟨Text.digits port.toNat, Text.spells_digits port.toNat, rfl⟩

theorem toList_behind (host : String) (numeral : List Char) :
    (host ++ ":" ++ String.ofList numeral).toList = host.toList ++ ':' :: numeral := by
  simp

theorem colon_mem_of_atPort {host address : String} {port : UInt16}
    (h : AtPort host port address) : ':' ∈ address.toList := by
  obtain ⟨numeral, -, rfl⟩ := h
  rw [toList_behind]
  simp

theorem hostBeforePort?_eq_some_iff {port : UInt16} {address : String} {host : List Char} :
    hostBeforePort? port address.toList = some host ↔ AtPort (String.ofList host) port address := by
  have hport : port.toNat ≤ 65535 := by
    have := port.toNat_lt
    omega
  constructor
  · intro h
    rw [hostBeforePort?] at h
    split at h
    · rename_i front numeral hsplit
      split at h
      · rename_i hread
        obtain rfl := Option.some.inj h
        refine ⟨numeral, (Text.readNat?_eq_some_iff.mp hread).2, String.toList_injective ?_⟩
        rw [toList_behind, (Text.splitLast?_eq_some_iff.mp hsplit).1, String.toList_ofList]
      · cases h
    · cases h
  · rintro ⟨numeral, hnumeral, rfl⟩
    rw [toList_behind, String.toList_ofList, hostBeforePort?,
      Text.splitLast?_append host (hnumeral.not_mem (by decide) rfl)]
    exact if_pos (Text.readNat?_eq_some_iff.mpr ⟨hport, hnumeral⟩)

variable (s : Socket)

-- An address that ends in a numeral for the port of the socket is about what stands in front.
theorem accepts_address_of_atPort {host address : String} (h : AtPort host s.port address) :
    (EndpointFilter.address address).accepts (.socket s) ↔ s.Named host := by
  have hhost : hostBeforePort? s.port address.toList = some host.toList :=
    hostBeforePort?_eq_some_iff.mpr (by rwa [String.ofList_toList])
  rw [EndpointFilter.address, accepts, acceptsSocket, addressNames, hhost]
  simp only [String.ofList_toList, s.isHost_iff]

-- Any other address is about itself.
theorem accepts_address_of_not_atPort {address : String}
    (h : ∀ host, ¬ AtPort host s.port address) :
    (EndpointFilter.address address).accepts (.socket s) ↔ s.Named address := by
  have hnone : hostBeforePort? s.port address.toList = none := by
    rw [Option.eq_none_iff_forall_ne_some]
    exact fun host hhost => h _ (hostBeforePort?_eq_some_iff.mp hhost)
  rw [EndpointFilter.address, accepts, acceptsSocket, addressNames, hnone]
  simp only [s.isHost_iff]

-- With the port behind it, each name of a socket finds it. A bare name finds it unless the
-- name itself ends in a numeral for the port: then it is taken for what stands in front.
theorem accepts_spelling {name : String} (hname : s.Named name) :
    (address (name ++ ":" ++ Text.showNat s.port.toNat)).accepts (.socket s) ∧
      ((address name).accepts (.socket s) ↔ ∀ host, AtPort host s.port name → s.Named host) := by
  refine ⟨(accepts_address_of_atPort s (atPort_showNat name s.port)).mpr hname, ?_⟩
  constructor
  · intro haccepts host hhost
    exact (accepts_address_of_atPort s hhost).mp haccepts
  · intro hall
    by_cases hport : ∃ host, AtPort host s.port name
    · obtain ⟨host, hhost⟩ := hport
      exact (accepts_address_of_atPort s hhost).mpr (hall host hhost)
    · exact (accepts_address_of_not_atPort s (not_exists.mp hport)).mpr hname

theorem accepts_spelling_resolved :
    Socket.Named ⟨"db.internal", 5432, 2, some "2001:db8::7"⟩ "2001:db8::7" ∧
      (address ("2001:db8::7" ++ ":" ++ Text.showNat 5432)).accepts
        (.socket ⟨"db.internal", 5432, 2, some "2001:db8::7"⟩) ∧
      (address "2001:db8::7").accepts (.socket ⟨"db.internal", 5432, 2, some "2001:db8::7"⟩) := by
  have hname : Socket.Named ⟨"db.internal", 5432, 2, some "2001:db8::7"⟩ "2001:db8::7" := .inr rfl
  have hnone : hostBeforePort? 5432 "2001:db8::7".toList = none := by decide
  obtain ⟨hport, hbare⟩ := accepts_spelling _ hname
  refine ⟨hname, hport, hbare.mpr fun host hhost => ?_⟩
  rw [← String.ofList_toList (s := host), ← hostBeforePort?_eq_some_iff, hnone] at hhost
  cases hhost

-- A host of colons and digits is refused where its last group reads as the port.
theorem address_refuses_host :
    (address "2001:db8::443").accepts (.socket ⟨"2001:db8::443", 443, -1, none⟩) = false := by
  decide

theorem atPort_showNat_iff {host name : String} {port p : UInt16} :
    AtPort host port (name ++ ":" ++ Text.showNat p.toNat) ↔ host = name ∧ port = p := by
  constructor
  · rintro ⟨numeral, hnumeral, haddress⟩
    have hlists := congrArg String.toList haddress
    rw [Text.showNat, toList_behind, toList_behind] at hlists
    have hname := Text.splitLast?_append name.toList
      ((Text.spells_digits p.toNat).not_mem (c := ':') (by decide) rfl)
    have hhost := Text.splitLast?_append host.toList (hnumeral.not_mem (c := ':') (by decide) rfl)
    rw [hlists, hhost] at hname
    obtain ⟨hfront, hbehind⟩ := Prod.mk.inj (Option.some.inj hname)
    rw [hbehind] at hnumeral
    exact ⟨String.toList_injective hfront,
      UInt16.toNat_inj.mp (hnumeral.eq (Text.spells_digits p.toNat))⟩
  · rintro ⟨rfl, rfl⟩
    exact atPort_showNat host port

theorem accepts_pattern_iff (host : String) (port : Option UInt16) :
    (Fault.SocketPattern.mk (some host) port).accepts s ↔
      s.Named host ∧ ∀ p ∈ port, p = s.port := by
  cases port <;> simp [Fault.SocketPattern.accepts, s.isHost_iff]

-- Where no name has a colon, no bare name can be taken for a name and a port.
theorem accepts_address_iff {s : Socket} (hs : ∀ name, s.Named name → ':' ∉ name.toList)
    (text : String) :
    (address text).accepts (.socket s) ↔
      s.Named text ∨ ∃ name, s.Named name ∧ AtPort name s.port text := by
  constructor
  · intro h
    by_cases hport : ∃ host, AtPort host s.port text
    · obtain ⟨host, hhost⟩ := hport
      exact .inr ⟨host, (accepts_address_of_atPort s hhost).mp h, hhost⟩
    · exact .inl ((accepts_address_of_not_atPort s (not_exists.mp hport)).mp h)
  · rintro (hname | ⟨name, hname, hport⟩)
    · have hbare : ∀ host, ¬ AtPort host s.port text := fun host hhost =>
        hs text hname (colon_mem_of_atPort hhost)
      exact (accepts_address_of_not_atPort s hbare).mpr hname
    · exact (accepts_address_of_atPort s hport).mpr hname

-- A filter reads an address from its text, a fault rule has the parts of one. Among the
-- sockets whose names are without a colon, both find the same.
theorem address_agrees_with_pattern (hs : ∀ name, s.Named name → ':' ∉ name.toList) :
    (∀ text, (address text).accepts (.socket s) ↔
      s.Named text ∨ ∃ name, s.Named name ∧ AtPort name s.port text) ∧
    (∀ host (port : UInt16),
      (address (host ++ ":" ++ Text.showNat port.toNat)).accepts (.socket s) =
        (Fault.SocketPattern.mk (some host) (some port)).accepts s) ∧
    ∀ host, ':' ∉ host.toList →
      (address host).accepts (.socket s) = (Fault.SocketPattern.mk (some host) none).accepts s := by
  refine ⟨accepts_address_iff hs, fun host port => ?_, fun host hcolon => ?_⟩
  · have hbare : ¬ s.Named (host ++ ":" ++ Text.showNat port.toNat) := fun hname =>
      hs _ hname (colon_mem_of_atPort (atPort_showNat host port))
    rw [Bool.eq_iff_iff, accepts_address_iff hs, accepts_pattern_iff]
    constructor
    · rintro (hname | ⟨name, hname, hport⟩)
      · exact absurd hname hbare
      · obtain ⟨rfl, hsame⟩ := atPort_showNat_iff.mp hport
        exact ⟨hname, fun p hp => (Option.some.inj hp).symm.trans hsame.symm⟩
    · rintro ⟨hname, hport⟩
      exact .inr ⟨host, hname, atPort_showNat_iff.mpr ⟨rfl, (hport port rfl).symm⟩⟩
  · have hport : ∀ name, ¬ AtPort name s.port host := fun name hname =>
      hcolon (colon_mem_of_atPort hname)
    rw [Bool.eq_iff_iff, accepts_address_of_not_atPort s hport, accepts_pattern_iff]
    exact ⟨fun hname => ⟨hname, fun p hp => by cases hp⟩, fun h => h.1⟩

theorem address_agrees_with_pattern_resolved :
    (∀ name, Socket.Named ⟨"db.internal", 5432, 2, some "10.0.0.7"⟩ name → ':' ∉ name.toList) ∧
      (address "10.0.0.7:+05432").accepts
        (.socket ⟨"db.internal", 5432, 2, some "10.0.0.7"⟩) ∧
      (address ("10.0.0.7" ++ ":" ++ Text.showNat 5433)).accepts
          (.socket ⟨"db.internal", 5432, 2, some "10.0.0.7"⟩) =
        (Fault.SocketPattern.mk (some "10.0.0.7") (some 5433)).accepts
          ⟨"db.internal", 5432, 2, some "10.0.0.7"⟩ ∧
      (address "10.0.0.7").accepts (.socket ⟨"db.internal", 5432, 2, some "10.0.0.7"⟩) =
        (Fault.SocketPattern.mk (some "10.0.0.7") none).accepts
          ⟨"db.internal", 5432, 2, some "10.0.0.7"⟩ := by
  have hs : ∀ name, Socket.Named ⟨"db.internal", 5432, 2, some "10.0.0.7"⟩ name →
      ':' ∉ name.toList := by
    rintro name (rfl | hname)
    · decide
    · obtain rfl := Option.some.inj hname
      decide
  have hread : hostBeforePort? 5432 "10.0.0.7:+05432".toList = some "10.0.0.7".toList := by decide
  have hnumeral : AtPort "10.0.0.7" 5432 "10.0.0.7:+05432" := hostBeforePort?_eq_some_iff.mp hread
  obtain ⟨htext, hpattern, hhost⟩ := address_agrees_with_pattern _ hs
  exact ⟨hs, (htext _).mpr (.inr ⟨"10.0.0.7", .inr rfl, hnumeral⟩), hpattern "10.0.0.7" 5433,
    hhost "10.0.0.7" (by decide)⟩

end EndpointFilter

end CallWatch
