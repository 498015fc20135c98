import CallWatch.Proofs.Json.Values

namespace CallWatch.Json

-- How a member is written.
def Writer.member (m : String × List Char) : List Char :=
  string m.1 ++ ':' :: m.2

theorem Writer.object_eq (members : List (String × List Char)) :
    object members = '\x7b' :: separated (members.map member) ++ ['\x7d'] := rfl

namespace Form

variable {δ α : Type}

-- No two fields have one name.
def Distinct (form : Form δ α) : Prop :=
  (form.fields.map Field.name).Nodup

instance (form : Form δ α) : Decidable form.Distinct :=
  inferInstanceAs (Decidable (form.fields.map Field.name).Nodup)

theorem find?_of_mem {fields : List (Field δ)} (hd : (fields.map Field.name).Nodup)
    {field : Field δ} (h : field ∈ fields) :
    (fields.find? fun f => f.name.toList = field.name.toList) = some field := by
  induction fields with
  | nil => cases h
  | cons f rest ih =>
      obtain ⟨hnew, hrest⟩ := List.nodup_cons.mp hd
      cases List.mem_cons.mp h with
      | inl heq =>
          rw [← heq]
          exact List.find?_cons_of_pos (by simp)
      | inr hmem =>
          have hne : f.name.toList ≠ field.name.toList := fun heq =>
            hnew (String.toList_inj.mp heq ▸ List.mem_map_of_mem hmem)
          rw [List.find?_cons_of_neg (by simpa using hne), ih hrest hmem]

-- Members that fill a draft one after the other. Each is a field of the form that the
-- draft lacks until then.
inductive Fills (form : Form δ α) : δ → List (String × List Char) → δ → Prop where
  | nil (draft : δ) : Fills form draft [] draft
  | cons {draft next last : δ} {name : String} {value : List Char}
      {rest : List (String × List Char)} {field : Field δ}
      (find : (form.fields.find? fun f => f.name.toList = name.toList) = some field)
      (lacks : field.isSet draft = false) (read : Reads (field.read draft) value next)
      (fills : Fills form next rest last) : Fills form draft ((name, value) :: rest) last

variable {form : Form δ α}

theorem Fills.append {draft next last : δ} {a b : List (String × List Char)}
    (h : form.Fills draft a next) (hnext : form.Fills next b last) :
    form.Fills draft (a ++ b) last := by
  induction h with
  | nil draft => exact hnext
  | cons find lacks read fills ih => exact .cons find lacks read (ih hnext)

-- A field that is read into a place of its own, which was empty.
theorem Fills.of {β : Type} {draft : δ} {name : String} {get : δ → Option β}
    {set : δ → β → δ} {r : Reader β} {value : List Char} {x : β} (hd : form.Distinct)
    (hfield : .of name get set r ∈ form.fields) (hlacks : get draft = none)
    (hread : Reads r value x) : form.Fills draft [(name, value)] (set draft x) :=
  .cons (find?_of_mem hd hfield) (by simp [Field.of, hlacks]) (hread.bind rfl) (.nil _)

-- One more member that is read into a place of its own.
theorem Fills.field {β : Type} {draft last : δ} {name : String} {get : δ → Option β}
    {set : δ → β → δ} {r : Reader β} {value : List Char} {x : β} {rest : List (String × List Char)}
    (hd : form.Distinct) (hfield : .of name get set r ∈ form.fields) (hlacks : get draft = none)
    (hread : Reads r value x) (hrest : form.Fills (set draft x) rest last) :
    form.Fills draft ((name, value) :: rest) last :=
  (Fills.of hd hfield hlacks hread).append hrest

theorem run_member {draft next : δ} {name : String} {value : List Char} {field : Field δ}
    (hfind : (form.fields.find? fun f => f.name.toList = name.toList) = some field)
    (hlacks : field.isSet draft = false) (hread : Reads (field.read draft) value next)
    {rest : List Char} (hrest : Ends rest) :
    form.member draft name.toList (':' :: (value ++ rest)) = .ok (next, rest) := by
  have hcolon : Reader.colon (':' :: (value ++ rest)) = .ok ((), value ++ rest) := by
    rw [Reader.colon, Reader.run_bind (Reader.run_token? (by decide) _)]
    rfl
  rw [member, hfind]
  simp only [hlacks, Bool.false_eq_true, if_false]
  rw [Reader.run_bind hcolon, hread.run rest hrest]

theorem run_members {n : Nat} {first : Bool} {draft next last : δ} {name : String}
    {value cs es rest : List Char} (hanother : Reader.another '\x7d' first cs =
      .ok (true, Writer.member (name, value) ++ es))
    (hmember : form.member draft name.toList (':' :: (value ++ es)) = .ok (next, es))
    (hmembers : form.members n false next es = .ok (last, rest)) :
    form.members (n + 1) first draft cs = .ok (last, rest) := by
  have hname : Quoted.read (name.toList.flatMap Writer.escape ++ '"' :: (':' :: (value ++ es))) =
      .ok (name.toList, ':' :: (value ++ es)) :=
    Quoted.body_flatMap_escape _ _
  have htext : Writer.member (name, value) ++ es =
      '"' :: (name.toList.flatMap Writer.escape ++ '"' :: (':' :: (value ++ es))) := by
    simp [Writer.member, Writer.string, Writer.text]
  rw [htext] at hanother
  rw [members, Reader.run_bind hanother, if_pos rfl, Reader.run_bind (Reader.run_peek? _),
    List.head?_cons, if_pos rfl, Reader.run_bind (Reader.run_advance _ _), Reader.run_bind hname,
    Reader.run_bind hmember, hmembers]

theorem run_members_close {n : Nat} (hn : 0 < n) (first : Bool) (draft : δ) (rest : List Char) :
    form.members n first draft ('\x7d' :: rest) = .ok (draft, '\x7d' :: rest) := by
  obtain ⟨n, rfl⟩ := Nat.exists_eq_succ_of_ne_zero (Nat.ne_of_gt hn)
  exact Reader.run_bind (Reader.run_another_close (by decide) first rest)

theorem run_members_following {draft last : δ} {ms : List (String × List Char)}
    (h : form.Fills draft ms last) {n : Nat} (hn : ms.length < n) (rest : List Char) :
    form.members n false draft
        (Writer.following (ms.map Writer.member) ++ '\x7d' :: rest) =
      .ok (last, '\x7d' :: rest) := by
  induction h generalizing n with
  | nil draft => exact run_members_close hn false draft rest
  | @cons draft next last name value ms field find lacks read fills ih =>
      obtain ⟨n, rfl⟩ := Nat.exists_eq_succ_of_ne_zero (Nat.ne_of_gt (Nat.zero_lt_of_lt hn))
      have hends := Writer.ends_following (.inr rfl) (ms.map Writer.member) rest
      have hcs : Writer.following (((name, value) :: ms).map Writer.member) ++ '\x7d' :: rest =
          ',' :: (Writer.member (name, value) ++
            (Writer.following (ms.map Writer.member) ++ '\x7d' :: rest)) := by
        simp [Writer.following]
      rw [hcs]
      refine run_members ?_ (run_member find lacks read hends) (ih (Nat.lt_of_succ_lt_succ hn))
      exact Reader.run_another_next (by decide) (by decide) (by decide) _

-- What was written for a record is read as that record.
theorem reads_object {ms : List (String × List Char)} {draft : δ} {value : α}
    (h : form.Fills form.blank ms draft) (hfinish : form.finish draft = some value) :
    Reads form.read (Writer.object ms) value where
  solid := ⟨'\x7b', _, rfl, by decide, by decide⟩
  run rest _ := by
    have hmembers : form.members
        ((Writer.separated (ms.map Writer.member) ++ '\x7d' :: rest).length + 1) true form.blank
        (Writer.separated (ms.map Writer.member) ++ '\x7d' :: rest) =
          .ok (draft, '\x7d' :: rest) := by
      cases h with
      | nil => exact run_members_close (Nat.succ_pos _) true form.blank rest
      | @cons _ next _ name value ms field find lacks read fills =>
          have hends := Writer.ends_following (.inr rfl) (ms.map Writer.member) rest
          have hlength := Writer.length_le_following (ms.map Writer.member)
          rw [List.map_cons, Writer.separated_cons, List.append_assoc]
          refine run_members ?_ (run_member find lacks read hends)
            (run_members_following fills ?_ rest)
          · exact Reader.run_another_first (by decide) (by decide) _
          · rw [List.length_map] at hlength
            simp only [List.length_append, List.length_cons]
            omega
    have hdone : form.done draft ('\x7d' :: rest) = .ok (value, '\x7d' :: rest) := by
      rw [done, hfinish]
      rfl
    rw [read, Writer.object_eq, List.cons_append, List.cons_append,
      Reader.run_bind (Reader.run_token? (by decide) _), List.append_assoc, List.singleton_append]
    refine (Reader.run_bind (Reader.run_advance _ _)).trans ?_
    rw [Reader.run_bind (Reader.run_remaining _), Reader.run_bind hmembers, Reader.run_bind hdone,
      Reader.run_bind (Reader.run_advance _ _)]
    rfl

-- The same written form, read into a draft and no further.
def unfinished (form : Form δ α) : Form δ δ :=
  ⟨form.blank, form.fields, form.isClosed, some⟩

theorem members_unfinished (form : Form δ α) (n : Nat) (first : Bool) (draft : δ) :
    form.unfinished.members n first draft = form.members n first draft := by
  induction n generalizing first draft with
  | zero => rfl
  | succ n ih =>
      have hmember : form.unfinished.member = form.member := rfl
      simp only [members, hmember, ih]

-- A form that makes a record of every draft reads a draft and finishes it.
theorem read_eq_map {finish : δ → α} (h : ∀ draft, form.finish draft = some (finish draft)) :
    form.read = finish <$> form.unfinished.read := by
  have hdone (draft : δ) : form.done draft = pure (finish draft) := by rw [done, h]
  have hdraft (draft : δ) : form.unfinished.done draft = pure draft := rfl
  simp only [read, hdone, hdraft, members_unfinished, map_bind]
  congr 1
  funext c
  split
  · simp only [map_bind, apply_ite, pure_bind, map_pure, Reader.map_missing]
    rfl
  · simp only [map_bind, pure_bind, map_pure]
    rfl
  · rw [Reader.map_refuse]

end Form

end CallWatch.Json
