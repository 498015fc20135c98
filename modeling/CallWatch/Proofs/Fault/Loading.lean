import CallWatch.Proofs.Fault.Discovery
import CallWatch.Proofs.Json.Forms

namespace CallWatch

-- A text is read into a draft, which keeps what the text has, and then what it lacks is
-- filled in.
theorem Json.Format.ofText_document (text : String) :
    document.ofText text = (documentForm.unfinished.read.readAll text).map DocumentDraft.finish := by
  rw [ofText, document, Form.read_eq_map fun _ => rfl, Reader.readAll_map]

namespace Fault

namespace Rules

variable {π : Type} [DecidableEq π]

-- The status that the last of some entries gives to a pattern.
def lastStatus? (entries : Rules π) (p : π) : Option Status :=
  (entries.filter (·.1 = p)).getLast?.map (·.2)

-- A rule with the status of the last entry about its pattern, or as it is without one.
def restate (entries : Rules π) (r : π × Status) : π × Status :=
  (r.1, (entries.lastStatus? r.1).getD r.2)

-- Listed and newly named patterns, the new ones as open and in the order in which they come.
def listing (rules : Rules π) (named : List π) : Rules π :=
  rules ++ (rules.unlisted named).map fun p => (p, .opened)

-- Rules after entries. Listed patterns stay in their places, and the others come behind.
-- Where there are entries about a pattern, the last one counts.
def merge (rules entries : Rules π) : Rules π :=
  rules.map entries.restate ++
    (rules.unlisted entries.patterns).map fun p => (p, (entries.lastStatus? p).getD .opened)

theorem lastStatus?_concat (entries : Rules π) (p q : π) (status : Status) :
    lastStatus? (entries ++ [(p, status)]) q =
      if p = q then some status else entries.lastStatus? q := by
  rw [lastStatus?, List.filter_append]
  by_cases h : p = q
  · simp [h]
  · simp [h, lastStatus?]

theorem restate_concat (entries : Rules π) (p : π) (status : Status) (r : π × Status) :
    restate (entries ++ [(p, status)]) r =
      (r.1, if r.1 = p then status else (entries.restate r).2) := by
  rw [restate, lastStatus?_concat]
  by_cases h : p = r.1
  · simp [h]
  · simp [h, Ne.symm h, restate]

theorem restate_restate (entries : Rules π) (r : π × Status) :
    entries.restate (entries.restate r) = entries.restate r := by
  simp only [restate]
  cases entries.lastStatus? r.1 <;> rfl

theorem patterns_map_restate (entries rules : Rules π) :
    patterns (rules.map entries.restate) = rules.patterns := by
  rw [patterns, List.map_map]
  rfl

theorem patterns_listing (rules : Rules π) (named : List π) :
    (rules.listing named).patterns = rules.patterns ++ rules.unlisted named := by
  have hnew : patterns ((rules.unlisted named).map fun p => (p, Status.opened)) =
      rules.unlisted named := by
    rw [patterns, List.map_map]
    exact List.map_id _
  rw [listing, patterns_append, hnew]

theorem mem_patterns_listing {rules : Rules π} {named : List π} {p : π} (h : p ∈ named) :
    p ∈ (rules.listing named).patterns := by
  rw [patterns_listing, List.mem_append]
  by_cases hp : p ∈ rules.patterns
  · exact .inl hp
  · exact .inr (List.mem_eraseDups.mpr (List.mem_filter.mpr ⟨h, by simpa using hp⟩))

theorem listing_concat_of_mem {rules : Rules π} {named : List π} {p : π}
    (h : p ∈ (rules.listing named).patterns) :
    rules.listing (named ++ [p]) = rules.listing named := by
  rw [patterns_listing, List.mem_append] at h
  by_cases hp : p ∈ rules.patterns
  · rw [listing, unlisted_concat_of_mem hp, listing]
  · rw [listing, unlisted_concat_of_not_mem hp, if_pos (h.resolve_left hp), listing]

theorem listing_concat_of_not_mem {rules : Rules π} {named : List π} {p : π}
    (h : p ∉ (rules.listing named).patterns) :
    rules.listing (named ++ [p]) = rules.listing named ++ [(p, .opened)] := by
  rw [patterns_listing, List.mem_append, not_or] at h
  rw [listing, unlisted_concat_of_not_mem h.1, if_neg h.2, List.map_append, listing,
    List.append_assoc]
  rfl

-- To merge is to list what is new and then to restate everything.
theorem merge_eq (rules entries : Rules π) :
    rules.merge entries = (rules.listing entries.patterns).map entries.restate := by
  rw [merge, listing, List.map_append, List.map_map]
  rfl

theorem patterns_merge (rules entries : Rules π) :
    (rules.merge entries).patterns = (rules.listing entries.patterns).patterns := by
  rw [merge_eq, patterns_map_restate]

-- One more entry sets the rule of its pattern.
theorem set_merge {rules entries : Rules π} (hd : (rules.merge entries).Distinct) (p : π)
    (status : Status) :
    (rules.merge entries).set p status = rules.merge (entries ++ [(p, status)]) := by
  have hnamed : (entries ++ [(p, status)]).patterns = entries.patterns ++ [p] :=
    patterns_append _ _
  by_cases hp : p ∈ (rules.listing entries.patterns).patterns
  · rw [set_eq_map hd (by rwa [patterns_merge]), merge_eq, merge_eq, hnamed,
      listing_concat_of_mem hp, List.map_map]
    refine List.map_congr_left fun r _ => ?_
    rw [restate_concat]
    rfl
  · rw [set_of_not_mem (by rwa [patterns_merge]), merge_eq, merge_eq, hnamed,
      listing_concat_of_not_mem hp, List.map_append, List.map_singleton, restate_concat,
      if_pos rfl]
    congr 1
    refine List.map_congr_left fun r hr => ?_
    have hne : r.1 ≠ p := fun he => hp (he ▸ List.mem_map_of_mem hr)
    rw [restate_concat, if_neg hne]
    rfl

-- The closed form of entries that are made one after the other.
theorem foldl_set_eq_merge {rules : Rules π} (hd : rules.Distinct) (entries : Rules π) :
    entries.foldl (fun rules e => rules.set e.1 e.2) rules = rules.merge entries := by
  induction entries using List.reverseRecOn with
  | nil =>
      have hsame : rules.map (restate []) = rules := List.map_id rules
      rw [List.foldl_nil, merge, hsame]
      simp [unlisted, patterns]
  | append_singleton entries e ih =>
      have hmerge : (rules.merge entries).Distinct := ih ▸ hd.foldl_set (·.1) (·.2) entries
      rw [List.foldl_concat, ih, set_merge hmerge]

example : Rules.merge [(1, .closed), (2, .delay 5)]
    [(3, .closed), (1, .opened), (3, .delay 7)] =
      [(1, .opened), (2, .delay 5), (3, .delay 7)] := by decide

-- Entries that were made before change nothing.
theorem merge_merge (rules entries : Rules π) :
    (rules.merge entries).merge entries = rules.merge entries := by
  have hnone : (rules.merge entries).unlisted entries.patterns = [] := by
    rw [unlisted, patterns_merge, List.filter_eq_nil_iff.mpr, List.eraseDups_nil]
    intro p hp
    simpa using mem_patterns_listing hp
  have hrestated : (rules.merge entries).map entries.restate = rules.merge entries := by
    rw [merge_eq, List.map_map]
    exact List.map_congr_left fun r _ => restate_restate entries r
  rw [merge, hnone, hrestated, List.map_nil, List.append_nil]

end Rules

namespace Table

def merge (t : Table) (d : Document) : Table where
  sockets := t.sockets.merge (d.sockets.map fun e => (e.pattern, e.status))
  sources := t.sources.merge (d.sources.map fun e => (e.pattern, e.status))

theorem enter_eq_merge {t : Table} (h : t.Distinct) (d : Document) : d.enter t = t.merge d := by
  rw [Document.enter, merge, ← Rules.foldl_set_eq_merge h.1, ← Rules.foldl_set_eq_merge h.2,
    List.foldl_map, List.foldl_map]

theorem merge_merge (t : Table) (d : Document) : (t.merge d).merge d = t.merge d := by
  rw [merge, merge, Rules.merge_merge, Rules.merge_merge]

end Table

namespace Registry

theorem load_eq {r : Registry} (h : r.rules.Distinct) (d : Document) :
    r.load d = { r with rules := r.rules.merge d, persistent := d.persistent } := by
  rw [load, Table.enter_eq_merge h]

theorem load_load {r : Registry} (h : r.rules.Distinct) (d : Document) :
    (r.load d).load d = r.load d := by
  have hloaded : (r.load d).rules.Distinct := h.enter d
  rw [load_eq hloaded, load_eq h, Table.merge_merge]

theorem perform_read (r : Registry) (text : String) :
    r.perform (.read text) =
      match Json.Format.documentForm.unfinished.read.readAll text with
      | .ok draft => (r.load draft.finish, .done, .none)
      | .error defect => (r, .unreadable defect, .none) := by
  simp only [perform, Json.Format.ofText_document]
  cases Json.Format.documentForm.unfinished.read.readAll text <;> rfl

-- A text that cannot be read leaves everything as it is. What can be read is merged into the
-- rules as a whole, its flag is taken over, or turned off if there is none, and nothing else
-- happens. Reading it again changes nothing.
theorem read_merges (before : List Operation) (text : String) :
    let r := Registry.empty.run before
    (r.perform (.read text)).1.perform (.read text) = r.perform (.read text) ∧
      match Json.Format.documentForm.unfinished.read.readAll text with
      | .error defect => r.perform (.read text) = (r, .unreadable defect, .none)
      | .ok draft =>
          r.perform (.read text) =
            ({ r with
                rules := r.rules.merge draft.finish
                persistent := draft.persistent.getD false },
              .done, .none) := by
  intro r
  have hr : r.rules.Distinct := distinct_run .empty before
  simp only [perform_read]
  cases Json.Format.documentForm.unfinished.read.readAll text with
  | error defect => exact ⟨rfl, rfl⟩
  | ok draft =>
      exact ⟨congrArg (·, _, _) (load_load hr draft.finish),
        congrArg (·, _, _) (load_eq hr draft.finish)⟩

end Registry

end Fault

end CallWatch
