import CallWatch.Proofs.Ledger.Agreement
import CallWatch.Proofs.Session.Beginnings
import CallWatch.Proofs.Traffic.Streams

namespace CallWatch

-- A window holds what amounts and captures came to at its beginning.
structure Window.Recalls (w : Window) (amounts : List (Key × Tally))
    (captured : List (Key × Packet)) : Prop where
  valid : w.calls.Valid
  calls_eq : w.calls.toList = Roll.ofList amounts
  countOf : ∀ key, w.marks.countOf key = (Key.valuesOf key captured).length

theorem Window.Recalls.of_continues {w later : Window} {amounts : List (Key × Tally)}
    {captured : List (Key × Packet)} (h : w.Recalls amounts captured) (hlater : w.Continues later) :
    later.Recalls amounts captured := by
  obtain ⟨hvalid, hcalls, hmarks⟩ := h
  refine ⟨?_, ?_, ?_⟩
  · rw [hlater.calls]
    exact hvalid
  · rw [hlater.calls]
    exact hcalls
  · rw [hlater.marks]
    exact hmarks

theorem Window.recalls_of_begins {w : Window} {ledger : Ledger} {traffic : Traffic}
    {amounts : List (Key × Tally)} {captured : List (Key × Packet)}
    (hledger : ledger.Keeps amounts) (htraffic : traffic.Holds captured)
    (hcalls : w.calls = ledger.snapshot) (hmarks : w.marks = traffic.marks) :
    w.Recalls amounts captured := by
  refine ⟨?_, ?_, ?_⟩
  · rw [hcalls]
    exact ledger.valid_snapshot
  · rw [hcalls]
    exact hledger.toList_snapshot
  · intro key
    rw [hmarks]
    exact htraffic.countOf_marks key

namespace Session

-- A session and its history tell the same: of every ledger, of the traffic, and of
-- every window.
structure Follows (s : Session) (history : List Deed) : Prop where
  ledger : ∀ source, (s.ledgerOf source).Keeps (recordings (s.place source) history)
  traffic : s.tap.traffic.Holds (captures history)
  openings : ∀ number, openings number history =
    ((s.watched? number).map fun w => (w.window.owner, s.place w.source)).toList
  recalls : ∀ number w, s.watched? number = some w →
    w.window.Recalls (recordings (s.place w.source) (before number history))
      (captures (before number history))

theorem follows_start (config : Config) (side : Option ((Key.Identity → Nat) × Nat))
    (keeper : Option (Nat → Option String)) :
    (start config (side.map fun (placement, shards) => .withPlacement placement shards)
      keeper).Follows [] where
  ledger source := by
    have htap := Ledger.keeps_withPlacement (fun i => (hash i).toNat) Ledger.defaultShards
    cases source with
    | tap => exact htap
    | side =>
        cases side with
        | none => exact htap
        | some given => exact Ledger.keeps_withPlacement given.1 given.2
  traffic := Traffic.holds_empty
  openings number := rfl
  recalls number w hw := by cases hw

theorem holds_foldl {t : Traffic} {captured : List (Key × Packet)} (h : t.Holds captured)
    (ds : List Deed) : (ds.foldl Deed.onTraffic t).Holds (ds.foldl Deed.keepCapture captured) := by
  induction ds generalizing t captured with
  | nil => exact h
  | cons d rest ih =>
      apply ih
      cases d with
      | captured key packet => exact h.append key packet
      | forgot => exact Traffic.holds_empty
      | _ => exact h

theorem Follows.ledger_perform {s : Session} {history : List Deed} (h : s.Follows history)
    (action : Action) (source : Source) :
    ((s.perform action).1.ledgerOf source).Keeps
      (recordings (s.place source) (history ++ s.deeds action)) := by
  rw [ledgerOf_perform, recordings, changesOf_append, Ledger.Change.lasting, List.foldl_append]
  exact (h.ledger source).replay _

theorem Follows.traffic_perform {s : Session} {history : List Deed} (h : s.Follows history)
    (action : Action) :
    (s.perform action).1.tap.traffic.Holds (captures (history ++ s.deeds action)) := by
  rw [Session.traffic_perform, captures, List.foldl_append]
  exact holds_foldl h.traffic _

theorem Follows.openings_perform {s : Session} {history : List Deed} (h : s.Follows history)
    (action : Action) (number : Nat) :
    Session.openings number (history ++ s.deeds action) =
      (((s.perform action).1.watched? number).map
        fun w => (w.window.owner, s.place w.source)).toList := by
  rw [openings_append, h.openings]
  cases hlater : (s.perform action).1.watched? number with
  | none =>
      obtain ⟨hnone, hdeeds⟩ := s.openings_of_watched?_eq_none action hlater
      rw [hnone, hdeeds]
      rfl
  | some later =>
      cases s.windowStep_perform action hlater with
      | opened owner source expectations hnumber hdeeds =>
          have hnone : s.watched? number = none := by
            rw [watched?, hnumber]
            exact List.getElem?_eq_none (Nat.le_refl _)
          have hopening : (Deed.opened number owner (s.place source)).openingOf? number =
              some (owner, s.place source) := if_pos rfl
          rw [hnone, hdeeds, Session.openings, List.filterMap_cons_some hopening]
          rfl
      | restarted w hw hdeeds =>
          rw [hw, hdeeds]
          rfl
      | kept w hw later hcontinues hdeeds =>
          rw [hw, openings_eq_nil hdeeds, Option.map_some, Option.map_some, hcontinues.owner,
            List.append_nil]

theorem Follows.recalls_perform {s : Session} {history : List Deed} (h : s.Follows history)
    (action : Action) {number : Nat} {later : Watched}
    (hlater : (s.perform action).1.watched? number = some later) :
    later.window.Recalls
      (recordings (s.place later.source) (before number (history ++ s.deeds action)))
      (captures (before number (history ++ s.deeds action))) := by
  cases s.windowStep_perform action hlater with
  | opened owner source expectations hnumber hdeeds =>
      have hbegins : (Deed.opened number owner (s.place source)).begins number :=
        decide_eq_true rfl
      rw [hdeeds, before_concat number hbegins, recordings_concat_begins _ hbegins,
        captures_concat_begins hbegins]
      exact Window.recalls_of_begins (h.ledger source) h.traffic rfl rfl
  | restarted w hw hdeeds =>
      have hbegins : (Deed.restarted number).begins number := decide_eq_true rfl
      rw [hdeeds, before_concat number hbegins, recordings_concat_begins _ hbegins,
        captures_concat_begins hbegins]
      exact Window.recalls_of_begins (h.ledger w.source) h.traffic rfl rfl
  | kept w hw later hcontinues hdeeds =>
      rw [before_append number hdeeds]
      exact (h.recalls number w hw).of_continues hcontinues

theorem Follows.perform {s : Session} {history : List Deed} (h : s.Follows history)
    (action : Action) : (s.perform action).1.Follows (history ++ s.deeds action) where
  ledger source := by
    rw [place_perform]
    exact h.ledger_perform action source
  traffic := h.traffic_perform action
  openings number := by
    simp only [place_perform]
    exact h.openings_perform action number
  recalls number w hw := by
    rw [place_perform]
    exact h.recalls_perform action hw

theorem Reached.follows {s : Session} {history : List Deed} (h : Reached s history) :
    s.Follows history := by
  induction h with
  | start config side keeper => exact follows_start config side keeper
  | act h action ih => exact ih.perform action
  | enter h number ih => exact ⟨ih.ledger, ih.traffic, ih.openings, ih.recalls⟩
  | leave h outer ih => exact ⟨ih.ledger, ih.traffic, ih.openings, ih.recalls⟩

theorem Follows.openings_eq {s : Session} {history : List Deed} (h : s.Follows history)
    {name : String} {number : Nat} {w : Watched}
    (hw : s.guardedWindow? name = some (number, w)) :
    Session.openings number history = [(w.window.owner, s.place w.source)] := by
  rw [h.openings, (s.guardedWindow?_eq_some_iff.mp hw).2]
  rfl

end Session

end CallWatch
