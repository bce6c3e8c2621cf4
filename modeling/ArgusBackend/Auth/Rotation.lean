import ArgusBackend.Auth.Refresh
import ArgusBackend.Library.Chronicles
import Mathlib.Data.List.Nodup

/-!
# Rotation is safe

Whatever refreshes, revocations and logins do in between, a session keeps at most one active row,
and a refresh that goes through has consumed the row of the token it was asked with.

* `Same`, `grants` : a stored row and the row that was once inserted;
* `Weakens` : what the statements other than `INSERT` do to the table;
* `Stored`, `Single` : the invariants, without and with what is drawn being new;
* `rotation_safe` : what a session can rely on.
-/

namespace ArgusBackend

namespace Auth.Refresh

/-! ### What was inserted -/

/-- The rows that were inserted. -/
def grants (h : List Note) : List RefreshTokenSchema :=
  h.filterMap fun
    | .opened row => some row
    | .rotated _ _ next => some next
    | _ => none

/-- The first rows of the sessions. -/
def openings (h : List Note) : List RefreshTokenSchema :=
  h.filterMap fun
    | .opened row => some row
    | _ => none

/-- The hashes of the tokens and the ids of the sessions, all drawn at random, never repeat. -/
structure Fresh (h : List Note) : Prop where
  tokens : ((grants h).map (·.refreshToken)).Nodup
  sessions : ((openings h).map (·.sessionId)).Nodup

/-- A revocation of the session was committed after it was opened. -/
def Revoked (h : List Note) (userId : ℤ) (sessionId : String) : Prop :=
  ∃ before after scope keep, h = before ++ .revoked userId scope keep :: after ∧
    (∃ row ∈ openings before, row.userId = userId ∧ row.sessionId = sessionId) ∧
    targets scope keep sessionId = true

section Histories

variable {h h' : List Note} {userId : ℤ} {sessionId : String}

@[simp] theorem grants_append : grants (h ++ h') = grants h ++ grants h' := List.filterMap_append

@[simp] theorem openings_append : openings (h ++ h') = openings h ++ openings h' :=
  List.filterMap_append

theorem grants_subset (hsub : h ⊆ h') : grants h ⊆ grants h' := fun row hrow => by
  obtain ⟨n, hn, hgrant⟩ := List.mem_filterMap.1 hrow
  exact List.mem_filterMap.2 ⟨n, hsub hn, hgrant⟩

theorem Fresh.of_append (hfresh : Fresh (h ++ h')) : Fresh h := by
  obtain ⟨htokens, hsessions⟩ := hfresh
  rw [grants_append, List.map_append] at htokens
  rw [openings_append, List.map_append] at hsessions
  exact ⟨(List.nodup_append.1 htokens).1, (List.nodup_append.1 hsessions).1⟩

theorem Revoked.opened (hrevoked : Revoked h userId sessionId) :
    ∃ row ∈ openings h, row.userId = userId ∧ row.sessionId = sessionId := by
  obtain ⟨before, after, scope, keep, rfl, ⟨row, hrow, hsession⟩, -⟩ := hrevoked
  exact ⟨row, by rw [openings_append]; exact List.mem_append_left _ hrow, hsession⟩

/-- A session is revoked as before, or by the note that was left last. -/
theorem Revoked.of_concat {n : Note} (hrevoked : Revoked (h ++ [n]) userId sessionId) :
    Revoked h userId sessionId ∨ ∃ scope keep, n = .revoked userId scope keep ∧
      targets scope keep sessionId = true := by
  obtain ⟨before, after, scope, keep, heq, hopened, htarget⟩ := hrevoked
  rcases List.eq_nil_or_concat after with rfl | ⟨after, last, rfl⟩
  · obtain ⟨rfl, hlast⟩ := List.append_inj' heq rfl
    exact .inr ⟨scope, keep, List.singleton_inj.1 hlast, htarget⟩
  · rw [List.concat_eq_append, ← List.cons_append, ← List.append_assoc] at heq
    exact .inl ⟨before, after, scope, keep, (List.append_inj' heq rfl).1, hopened, htarget⟩

end Histories

/-- A stored row is, but for its flags, a row that was inserted. -/
structure Same (row grant : RefreshTokenSchema) : Prop where
  id : row.id = grant.id
  userId : row.userId = grant.userId
  sessionId : row.sessionId = grant.sessionId
  refreshToken : row.refreshToken = grant.refreshToken

theorem Same.refl (row : RefreshTokenSchema) : Same row row := ⟨rfl, rfl, rfl, rfl⟩

theorem Same.trans {a b c : RefreshTokenSchema} (hab : Same a b) (hbc : Same b c) : Same a c :=
  ⟨hab.id.trans hbc.id, hab.userId.trans hbc.userId, hab.sessionId.trans hbc.sessionId,
    hab.refreshToken.trans hbc.refreshToken⟩

/-! ### What the statements do to the table -/

/-- Rows may go, or be used up or invalidated. -/
structure Weakens (db db' : Db) : Prop where
  nextId : db'.nextId = db.nextId
  rows : ∀ row' ∈ db'.rows, ∃ row ∈ db.rows, Same row' row ∧
    (row.isUsed = true → row'.isUsed = true)
  ids : (db'.rows.map (·.id)).Sublist (db.rows.map (·.id))
  active : ∀ userId sessionId,
    (db'.activeOf userId sessionId).Sublist (db.activeOf userId sessionId)

section Tables

variable {db db' db'' : Db} {userId : ℤ} {sessionId : String} {row : RefreshTokenSchema}

theorem mem_activeOf : row ∈ db.activeOf userId sessionId ↔
    row ∈ db.rows ∧ row.userId = userId ∧ row.sessionId = sessionId ∧ row.active = true := by
  simp [Db.activeOf, List.mem_filter, and_assoc]

theorem Weakens.trans (hab : Weakens db db') (hbc : Weakens db' db'') : Weakens db db'' where
  nextId := hbc.nextId.trans hab.nextId
  rows row'' hrow'' := by
    obtain ⟨row', hrow', hsame', hused'⟩ := hbc.rows row'' hrow''
    obtain ⟨row, hrow, hsame, hused⟩ := hab.rows row' hrow'
    exact ⟨row, hrow, hsame'.trans hsame, fun h => hused' (hused h)⟩
  ids := hbc.ids.trans hab.ids
  active u s := (hbc.active u s).trans (hab.active u s)

/-- An update that leaves alone what stays active. -/
theorem weakens_map {f : RefreshTokenSchema → RefreshTokenSchema}
    (hsame : ∀ row, Same (f row) row) (hused : ∀ row, row.isUsed = true → (f row).isUsed = true)
    (hactive : ∀ row, (f row).active = true → f row = row) :
    Weakens db { db with rows := db.rows.map f } where
  nextId := rfl
  rows row' hrow' := by
    obtain ⟨row, hrow, rfl⟩ := List.mem_map.1 hrow'
    exact ⟨row, hrow, hsame row, hused row⟩
  ids := by
    have hids : (db.rows.map f).map (·.id) = db.rows.map (·.id) := by
      rw [List.map_map]
      exact List.map_congr_left fun row _ => (hsame row).id
    exact hids ▸ List.Sublist.refl _
  active userId sessionId := by
    simp only [Db.activeOf]
    induction db.rows with
    | nil => exact List.Sublist.refl _
    | cons row rows ih =>
      simp only [List.map_cons, List.filter_cons]
      by_cases hkept : (f row).active = true
      · rw [hactive row hkept]
        split
        · exact ih.cons_cons _
        · exact ih
      · simp only [hkept, Bool.and_false, Bool.false_eq_true, if_false]
        split
        · exact ih.cons _
        · exact ih

theorem weakens_filter (p : RefreshTokenSchema → Bool) :
    Weakens db { db with rows := db.rows.filter p } where
  nextId := rfl
  rows row hrow := ⟨row, List.mem_of_mem_filter hrow, Same.refl row, id⟩
  ids := List.filter_sublist.map _
  active _ _ := List.filter_sublist.filter _

theorem weakens_markUsed (db : Db) (id : ℤ) : Weakens db (db.markUsed id) := by
  refine weakens_map (fun row => ?_) (fun row hused => ?_) fun row hactive => ?_
  · split
    · exact ⟨rfl, rfl, rfl, rfl⟩
    · exact Same.refl row
  · split
    · rfl
    · exact hused
  · split at hactive
    · simp [RefreshTokenSchema.active] at hactive
    · rename_i hne
      simp [hne]

theorem weakens_pruneStale (db : Db) (userId now : ℤ) : Weakens db (db.pruneStale userId now) :=
  weakens_filter _

theorem weakens_invalidate (db : Db) (userId : ℤ) (scope : SessionRevocationScope)
    (sessionId : String) : Weakens db (db.invalidate userId scope sessionId) := by
  refine weakens_map (fun row => ?_) (fun row hused => ?_) fun row hactive => ?_
  · split
    · exact ⟨rfl, rfl, rfl, rfl⟩
    · exact Same.refl row
  · split
    · exact hused
    · exact hused
  · split at hactive
    · simp [RefreshTokenSchema.active] at hactive
    · rename_i hne
      simp [hne]

/-- A revocation leaves no active row to a session it targets. -/
theorem activeOf_invalidate {scope : SessionRevocationScope} {keep : String}
    (htarget : targets scope keep sessionId = true) :
    (db.invalidate userId scope keep).activeOf userId sessionId = [] := by
  refine List.eq_nil_iff_forall_not_mem.2 fun row hrow => ?_
  obtain ⟨hmem, huser, hsession, hactive⟩ := mem_activeOf.1 hrow
  obtain ⟨old, -, rfl⟩ := List.mem_map.1 hmem
  split at hactive
  · simp [RefreshTokenSchema.active] at hactive
  · rename_i hnot
    simp only [hnot, if_false] at huser hsession
    exact hnot ⟨huser, by rw [hsession]; exact htarget⟩

/-- What is marked is no longer active. -/
theorem id_ne_of_markUsed {id : ℤ} (hrow : row ∈ (db.markUsed id).activeOf userId sessionId) :
    row.id ≠ id := by
  obtain ⟨hmem, -, -, hactive⟩ := mem_activeOf.1 hrow
  obtain ⟨old, -, rfl⟩ := List.mem_map.1 hmem
  split at hactive
  · simp [RefreshTokenSchema.active] at hactive
  · rename_i hnot
    simp only [hnot, if_false] at hactive ⊢
    exact fun hid => hnot ⟨hid, hactive⟩

theorem activeOf_create {sha256Hex : String → String} {input : RefreshTokenCreateInput}
    {now : ℤ} :
    (db.create sha256Hex input now).activeOf userId sessionId =
      db.activeOf userId sessionId ++
        if input.userId = userId ∧ input.sessionId = sessionId then
          [rowOf sha256Hex input db.nextId now] else [] := by
  simp only [Db.activeOf, Db.create, List.filter_append]
  congr 1
  split <;> simp_all [rowOf, RefreshTokenSchema.active]

theorem markable_some {id : ℤ} (hrow : db.markable id = some row) :
    row ∈ db.rows ∧ row.id = id ∧ row.active = true := by
  refine ⟨List.mem_of_find?_eq_some hrow, ?_⟩
  simpa using List.find?_some hrow

end Tables

/-! ### The table and the notes -/

/-- What a refresh that went through had: the token of the row it consumed, which no refresh had
used before, and a session that was not revoked.  The next row remembers that token. -/
structure Rotates (sha256Hex : String → String) (before : List Note)
    (presented : RefreshPresentation) (row next : RefreshTokenSchema) : Prop where
  active : row.active = true
  current : row.refreshToken = sha256Hex presented.token
  session : next.userId = row.userId ∧ next.sessionId = row.sessionId
  previous : next.previousRefreshToken = row.refreshToken
  once : ∀ presented' row' next', .rotated presented' row' next' ∈ before →
    presented'.token ≠ presented.token
  unrevoked : ¬ Revoked before row.userId row.sessionId

/-- What each note says with the notes before it: a rotation is rightful, and a token that is not
that of the session is answered once the session is revoked, unless a rotation raced. -/
def Note.Rightful (setup : Setup) (before : List Note) : Note → Prop
  | .rotated presented row next => Rotates setup.sha256Hex before presented row next
  | .refused input (.stale session now) =>
    AuthFeatureService.racedRotation setup session input (setup.sha256Hex input.refreshToken) now
        = true ∨
      .revoked session.userId .one session.sessionId ∈ before
  | _ => True

/-- What holds of the rows whatever is drawn. -/
structure Stored (sha256Hex : String → String) (h : List Note) (db : Db) : Prop where
  ordered : (db.rows.map (·.id)).Pairwise (· < ·)
  below : ∀ row ∈ db.rows, row.id < db.nextId
  granted : ∀ row ∈ db.rows, ∃ grant ∈ grants h, Same row grant
  opened : ∀ row ∈ db.rows, ∃ first ∈ openings h,
    first.userId = row.userId ∧ first.sessionId = row.sessionId
  grantIds : ((grants h).map (·.id)).Pairwise (· < ·)
  grantBelow : ∀ grant ∈ grants h, grant.id < db.nextId
  hashed : ∀ grant ∈ grants h, ∃ token, grant.refreshToken = sha256Hex token
  consumed : ∀ presented row next, .rotated presented row next ∈ h →
    (∃ grant ∈ grants h, Same row grant) ∧ row.refreshToken = sha256Hex presented.token ∧
      ∀ row' ∈ db.rows, row'.id = row.id → row'.isUsed = true

/-- What holds as long as what is drawn is new. -/
structure Single (setup : Setup) (h : List Note) (db : Db) : Prop where
  atMostOne : ∀ userId sessionId, (db.activeOf userId sessionId).length ≤ 1
  dead : ∀ userId sessionId, Revoked h userId sessionId → db.activeOf userId sessionId = []
  rightful : Chronicle (Note.Rightful setup) h

section Steps

variable {setup : Setup} {sha256Hex : String → String} {h : List Note} {db db' : Db}

theorem Stored.weaken (hs : Stored sha256Hex h db) (hw : Weakens db db') :
    Stored sha256Hex h db' where
  ordered := hs.ordered.sublist hw.ids
  below row' hrow' := by
    obtain ⟨row, hrow, hsame, -⟩ := hw.rows row' hrow'
    rw [hsame.id, hw.nextId]
    exact hs.below row hrow
  granted row' hrow' := by
    obtain ⟨row, hrow, hsame, -⟩ := hw.rows row' hrow'
    obtain ⟨grant, hgrant, hrowgrant⟩ := hs.granted row hrow
    exact ⟨grant, hgrant, hsame.trans hrowgrant⟩
  opened row' hrow' := by
    obtain ⟨row, hrow, hsame, -⟩ := hw.rows row' hrow'
    rw [hsame.userId, hsame.sessionId]
    exact hs.opened row hrow
  grantIds := hs.grantIds
  grantBelow := hw.nextId ▸ hs.grantBelow
  hashed := hs.hashed
  consumed presented old next hn := by
    obtain ⟨hgrant, hhash, hused⟩ := hs.consumed presented old next hn
    refine ⟨hgrant, hhash, fun row' hrow' hid => ?_⟩
    obtain ⟨row, hrow, hsame, hkept⟩ := hw.rows row' hrow'
    exact hkept (hused row hrow (hsame.id.symm.trans hid))

theorem Single.weaken (hs : Single setup h db) (hw : Weakens db db') : Single setup h db' where
  atMostOne u s := (hw.active u s).length_le.trans (hs.atMostOne u s)
  dead u s hrevoked := List.sublist_nil.1 (hs.dead u s hrevoked ▸ hw.active u s)
  rightful := hs.rightful

/-- Notes that insert nothing. -/
theorem Stored.note {h' : List Note} (hs : Stored sha256Hex h db) (hgrants : grants h' = [])
    (hopenings : openings h' = []) : Stored sha256Hex (h ++ h') db := by
  have hgrantsAll : grants (h ++ h') = grants h := by rw [grants_append, hgrants, List.append_nil]
  have hopeningsAll : openings (h ++ h') = openings h := by
    rw [openings_append, hopenings, List.append_nil]
  refine ⟨hs.ordered, hs.below, ?_, ?_, ?_, ?_, ?_, fun presented row next hn => ?_⟩
  · rw [hgrantsAll]
    exact hs.granted
  · rw [hopeningsAll]
    exact hs.opened
  · rw [hgrantsAll]
    exact hs.grantIds
  · rw [hgrantsAll]
    exact hs.grantBelow
  · rw [hgrantsAll]
    exact hs.hashed
  · rw [hgrantsAll]
    rcases List.mem_append.1 hn with hold | hnew
    · exact hs.consumed presented row next hold
    · have hmem : next ∈ grants h' := List.mem_filterMap.2 ⟨_, hnew, rfl⟩
      rw [hgrants] at hmem
      cases hmem

/-- A row is inserted, with a note that says so. -/
theorem Stored.create {input : RefreshTokenCreateInput} {now : ℤ} {n : Note}
    (hs : Stored sha256Hex h db)
    (hgrant : grants [n] = [rowOf sha256Hex input db.nextId now])
    (hopened : ∃ first ∈ openings (h ++ [n]),
      first.userId = input.userId ∧ first.sessionId = input.sessionId)
    (hconsumed : ∀ presented row next, n = .rotated presented row next →
      (∃ grant ∈ grants h, Same row grant) ∧ row.refreshToken = sha256Hex presented.token ∧
        ∀ row' ∈ db.rows, row'.id = row.id → row'.isUsed = true) :
    Stored sha256Hex (h ++ [n]) (db.create sha256Hex input now) := by
  have hgrants : grants (h ++ [n]) = grants h ++ [rowOf sha256Hex input db.nextId now] := by
    rw [grants_append, hgrant]
  have hsub : grants h ⊆ grants (h ++ [n]) := by
    rw [hgrants]
    exact List.subset_append_left _ _
  refine ⟨?_, ?_, ?_, ?_, ?_, ?_, ?_, fun presented row next hn => ?_⟩
  · simp only [Db.create, List.map_append, List.map_cons, List.map_nil]
    refine List.pairwise_append.2 ⟨hs.ordered, List.pairwise_singleton _ _, ?_⟩
    intro id hid id' hid'
    obtain ⟨row, hrow, rfl⟩ := List.mem_map.1 hid
    rw [List.mem_singleton.1 hid']
    exact hs.below row hrow
  · intro row hrow
    rcases List.mem_append.1 hrow with hold | hnew
    · exact (hs.below row hold).trans (Int.lt_succ _)
    · rw [List.mem_singleton.1 hnew]
      exact Int.lt_succ _
  · intro row hrow
    rcases List.mem_append.1 hrow with hold | hnew
    · exact (hs.granted row hold).imp fun _ hg => ⟨hsub hg.1, hg.2⟩
    · exact ⟨row, by rw [hgrants]; exact List.mem_append_right _ hnew, Same.refl row⟩
  · intro row hrow
    rcases List.mem_append.1 hrow with hold | hnew
    · obtain ⟨first, hfirst, hsession⟩ := hs.opened row hold
      exact ⟨first, by rw [openings_append]; exact List.mem_append_left _ hfirst, hsession⟩
    · rw [List.mem_singleton.1 hnew]
      exact hopened
  · rw [hgrants, List.map_append]
    refine List.pairwise_append.2 ⟨hs.grantIds, List.pairwise_singleton _ _, ?_⟩
    intro id hid id' hid'
    obtain ⟨grant, hmem, rfl⟩ := List.mem_map.1 hid
    rw [List.mem_singleton.1 hid']
    exact hs.grantBelow grant hmem
  · rw [hgrants]
    intro grant hmem
    rcases List.mem_append.1 hmem with hold | hnew
    · exact (hs.grantBelow grant hold).trans (Int.lt_succ _)
    · rw [List.mem_singleton.1 hnew]
      exact Int.lt_succ _
  · rw [hgrants]
    intro grant hmem
    rcases List.mem_append.1 hmem with hold | hnew
    · exact hs.hashed grant hold
    · rw [List.mem_singleton.1 hnew]
      exact ⟨input.refreshToken, rfl⟩
  · obtain ⟨⟨grant, hmem, hsame⟩, hhash, hused⟩ :
        (∃ grant ∈ grants h, Same row grant) ∧ row.refreshToken = sha256Hex presented.token ∧
          ∀ row' ∈ db.rows, row'.id = row.id → row'.isUsed = true := by
      rcases List.mem_append.1 hn with hold | hnew
      · exact hs.consumed presented row next hold
      · exact hconsumed presented row next (List.mem_singleton.1 hnew).symm
    refine ⟨⟨grant, hsub hmem, hsame⟩, hhash, fun row' hrow' hid => ?_⟩
    rcases List.mem_append.1 hrow' with hold | hnew
    · exact hused row' hold hid
    · -- a new row has a new id
      have hlt := hs.grantBelow grant hmem
      rw [List.mem_singleton.1 hnew] at hid
      rw [← hsame.id, ← hid] at hlt
      exact absurd hlt (lt_irrefl _)

theorem Stored.grant_eq {grant grant' : RefreshTokenSchema} (hs : Stored sha256Hex h db)
    (hgrant : grant ∈ grants h) (hgrant' : grant' ∈ grants h) (hid : grant.id = grant'.id) :
    grant = grant' :=
  List.inj_on_of_nodup_map (hs.grantIds.imp ne_of_lt) hgrant hgrant' hid

theorem Stored.row_eq {row row' : RefreshTokenSchema} (hs : Stored sha256Hex h db)
    (hrow : row ∈ db.rows) (hrow' : row' ∈ db.rows) (hid : row.id = row'.id) : row = row' :=
  List.inj_on_of_nodup_map (hs.ordered.imp ne_of_lt) hrow hrow' hid

/-! ### What the requests rely on -/

/-- What was noted so far, and the table. -/
abbrev World := List Note × Db

/-- A refresh asks to consume a row that was inserted for its session and holds its token. -/
structure Entitled (setup : Setup) (h : List Note) (presented : RefreshPresentation) (id : ℤ)
    (input : RefreshTokenCreateInput) : Prop where
  verified : (setup.verifyRefresh presented.token).isSome = true
  previous : input.previousRefreshHash = setup.sha256Hex presented.token
  granted : ∃ grant ∈ grants h, grant.id = id ∧ grant.userId = input.userId ∧
    grant.sessionId = input.sessionId ∧
    (grant.refreshToken = setup.sha256Hex presented.token ∨ grant.refreshToken = presented.token)

theorem Entitled.mono {h' : List Note} {presented : RefreshPresentation} {id : ℤ}
    {input : RefreshTokenCreateInput} (he : Entitled setup h presented id input) (hsub : h ⊆ h') :
    Entitled setup h' presented id input :=
  ⟨he.verified, he.previous, he.granted.imp fun _ hg => ⟨grants_subset hsub hg.1, hg.2⟩⟩

/-- What has to be so before an operation. -/
def need (setup : Setup) (w : World) : Op → Prop
  | .rotate presented id input => Entitled setup w.1 presented id input
  | .refuse input refusal => (Note.refused input refusal).Rightful setup w.1
  | _ => True

/-- What the answer of an operation tells. -/
def fact (w : World) : (op : Op) → op.Ans → Prop
  | .findActiveBySession userId sessionId, found => ∀ row, found = some row →
      row.userId = userId ∧ row.sessionId = sessionId ∧ ∃ grant ∈ grants w.1, Same row grant
  | .invalidate userId scope sessionId, _ => .revoked userId scope sessionId ∈ w.1
  | _, _ => True

theorem rightful_refused_mono {before before' : List Note} {input : RefreshTokenInput}
    {refusal : Refusal} (hn : (Note.refused input refusal).Rightful setup before)
    (hsub : before ⊆ before') : (Note.refused input refusal).Rightful setup before' := by
  cases refusal with
  | stale session now => exact Or.imp id (fun hmem => hsub hmem) hn
  | _ => trivial

/-- What the requests are held to. -/
def terms (setup : Setup) : Terms World Op Op.Ans where
  future w w' := w.1 ⊆ w'.1
  refl w := List.Subset.refl _
  trans h h' := List.Subset.trans h h'
  need := need setup
  need_mono := by
    intro w w' op hw hneed
    cases op with
    | rotate presented id input => exact Entitled.mono hneed hw
    | refuse input refusal => exact rightful_refused_mono hneed hw
    | _ => trivial
  fact := fact

open ArgusBackend.Task Auth.Refresh.AuthFeatureService

variable {w : World} {input : RefreshTokenInput}

theorem heeds_refuse {α : Type} {refusal : Refusal} {post : α → World → Prop}
    (hneed : (Note.refused input refusal).Rightful setup w.1) :
    (refuse input refusal : AuthTask α).Heeds (terms setup) post w :=
  heeds_call hneed le_rfl fun _ _ _ _ => heeds_throw

theorem heeds_revoke {userId : ℤ} {scope : SessionRevocationScope} {sessionId : String} :
    (SessionRevocation.revoke userId scope sessionId).Heeds (terms setup) (fun _ w' =>
      sessionId ≠ "" → Note.revoked userId scope sessionId ∈ w'.1) w := by
  unfold SessionRevocation.revoke
  split
  · rename_i hempty
    exact heeds_pure fun _ _ hne => absurd hempty.2 hne
  · exact heeds_last trivial le_rfl fun _ _ _ _ hrevoked hw _ => hw hrevoked

theorem heeds_settleStaleToken {session : RefreshTokenSchema} {tokenHash : String}
    (hcarries : session.sessionId ≠ "") :
    (settleStaleToken setup session input tokenHash).Heeds (terms setup) (fun now w' =>
      racedRotation setup session input tokenHash now = true ∨
        .revoked session.userId .one session.sessionId ∈ w'.1) w := by
  refine heeds_call trivial le_rfl fun now w' _ _ => ?_
  split
  · rename_i hraced
    exact heeds_pure fun _ _ => .inl hraced
  · refine heeds_bind heeds_revoke fun _ w'' _ hrevoked => ?_
    exact heeds_pure fun _ hw => .inr (hw (hrevoked hcarries))

theorem heeds_refuseDisabledAccount {userId : ℤ} {lookup : IdentityLookup} :
    (refuseDisabledAccount input userId lookup).Heeds (terms setup) (fun _ _ => True) w := by
  refine heeds_call trivial le_rfl fun user w' _ _ => ?_
  rcases user with _ | _ | _ | _
  · cases lookup with
    | required => exact heeds_refuse trivial
    | bestEffort => exact heeds_pure fun _ _ => trivial
  · exact heeds_pure fun _ _ => trivial
  · exact heeds_bind heeds_revoke fun _ _ _ _ => heeds_refuse trivial
  · exact heeds_pure fun _ _ => trivial

theorem heeds_refreshFrom {claims : RefreshClaims} {existing : RefreshTokenSchema}
    (hverified : setup.verifyRefresh input.refreshToken = some claims)
    (huser : existing.userId = claims.userId) (hsession : existing.sessionId = claims.sessionId)
    (hgranted : ∃ grant ∈ grants w.1, Same existing grant) :
    (refreshFrom setup input ⟨claims.userId, input.refreshToken,
      setup.sha256Hex input.refreshToken, claims.sessionId⟩ existing).Heeds (terms setup)
      (fun _ _ => True) w := by
  unfold refreshFrom
  split
  · refine heeds_bind (heeds_settleStaleToken (hsession ▸ claims.carries)) fun now w' _ hsettled => ?_
    exact heeds_refuse hsettled
  rename_i hcurrent
  refine heeds_call trivial le_rfl fun now w₁ hw₁ _ => ?_
  dsimp only
  split
  · exact heeds_refuse trivial
  split
  · exact heeds_refuse trivial
  refine heeds_bind heeds_refuseDisabledAccount fun _ w₂ hw₂ _ => ?_
  refine heeds_call trivial le_rfl fun tokens w₃ hw₃ _ => ?_
  refine heeds_call (k := 0) ⟨by simp [hverified], rfl, ?_⟩ le_rfl fun rotated w₄ _ _ => ?_
  · -- the row was read long before, but what was inserted stays
    obtain ⟨grant, hgrant, hsame⟩ := hgranted
    refine ⟨grant, grants_subset (hw₃ : w₂.1 ⊆ w₃.1) (grants_subset (hw₂ : w₁.1 ⊆ w₂.1)
      (grants_subset (hw₁ : w.1 ⊆ w₁.1) hgrant)), hsame.id.symm, hsame.userId.symm.trans huser,
      hsame.sessionId.symm, ?_⟩
    rw [← hsame.refreshToken]
    simp only [ne_eq, not_and_or, not_not] at hcurrent
    exact hcurrent
  · split
    · exact heeds_pure fun _ _ => trivial
    · exact heeds_refuse trivial

theorem heeds_refreshToken :
    (refreshToken setup input).Heeds (terms setup) (fun _ _ => True) w := by
  unfold refreshToken
  split
  · exact heeds_refuse trivial
  rename_i claims hverified
  refine heeds_call trivial le_rfl fun found w' _ hfound => ?_
  split
  · exact heeds_bind heeds_refuseDisabledAccount fun _ _ _ _ => heeds_refuse trivial
  · rename_i existing
    obtain ⟨huser, hsession, hgranted⟩ := hfound existing rfl
    exact heeds_refreshFrom hverified huser hsession hgranted

theorem heeds_program (request : Request) :
    (program setup request).Heeds (terms setup) (fun _ _ => True) w := by
  cases request with
  | refresh input =>
    exact heeds_bind heeds_refreshToken fun _ _ _ _ => heeds_pure fun _ _ => trivial
  | login userId device =>
    refine heeds_bind (Q := fun _ _ => True) ?_ fun _ _ _ _ => heeds_pure fun _ _ => trivial
    refine heeds_call trivial le_rfl fun sessionId _ _ _ => ?_
    refine heeds_call trivial le_rfl fun tokens _ _ _ => ?_
    refine heeds_call trivial le_rfl fun now _ _ _ => ?_
    exact heeds_call trivial le_rfl fun _ _ _ _ => heeds_pure fun _ _ => trivial
  | revoke userId scope sessionId =>
    exact HeedsWith.mono heeds_revoke fun _ _ _ _ => trivial
  | prune userId => exact heeds_last trivial le_rfl fun _ _ _ _ _ _ => trivial

end Steps

/-! ### What one operation does -/

section Operations

variable {setup : Setup} {h : List Note} {db : Db} {userId : ℤ} {sessionId : String} {now id : ℤ}
  {presented : RefreshPresentation} {input : RefreshTokenCreateInput} {row : RefreshTokenSchema}

/-- The row that is found holds the token that was presented. -/
theorem Entitled.holds (hraw : ∀ token, setup.verifyRefresh (setup.sha256Hex token) = none)
    (he : Entitled setup h presented id input) (hs : Stored setup.sha256Hex h db)
    (hrow : db.markable id = some row) :
    row.refreshToken = setup.sha256Hex presented.token ∧ row.userId = input.userId ∧
      row.sessionId = input.sessionId := by
  obtain ⟨hmem, hid, -⟩ := markable_some hrow
  obtain ⟨grant, hgrant, hgrantId, huser, hsession, htoken⟩ := he.granted
  obtain ⟨grant', hgrant', hsame⟩ := hs.granted row hmem
  obtain rfl : grant = grant' :=
    hs.grant_eq hgrant hgrant' (by rw [hgrantId, ← hid, hsame.id])
  refine ⟨hsame.refreshToken.trans ?_, hsame.userId.trans huser, hsame.sessionId.trans hsession⟩
  rcases htoken with hhash | hplain
  · exact hhash
  · -- what is stored is a hash, and no hash verifies
    obtain ⟨token, hstored⟩ := hs.hashed grant hgrant
    have hverified := he.verified
    rw [← hplain, hstored, hraw] at hverified
    cases hverified

theorem used_of_markUsed {row' : RefreshTokenSchema} (hs : Stored setup.sha256Hex h db)
    (hrow : db.markable id = some row) (hrow' : row' ∈ (db.markUsed id).rows)
    (hid' : row'.id = row.id) : row'.isUsed = true := by
  obtain ⟨hmem, hid, hactive⟩ := markable_some hrow
  obtain ⟨old, hold, rfl⟩ := List.mem_map.1 hrow'
  split
  · rfl
  · rename_i hnot
    simp only [hnot, if_false] at hid'
    obtain rfl := hs.row_eq hold hmem hid'
    exact absurd ⟨hid, hactive⟩ hnot

theorem Stored.rotate (hraw : ∀ token, setup.verifyRefresh (setup.sha256Hex token) = none)
    (he : Entitled setup h presented id input) (hs : Stored setup.sha256Hex h db)
    (hrow : db.markable id = some row) :
    Stored setup.sha256Hex
      (h ++ [.rotated presented row (rowOf setup.sha256Hex input db.nextId now)])
      (db.rotate setup.sha256Hex id input now) := by
  obtain ⟨hhash, huser, hsession⟩ := he.holds hraw hs hrow
  obtain ⟨hmem, hid, -⟩ := markable_some hrow
  have hweak := (weakens_markUsed db id).trans (weakens_pruneStale _ input.userId now)
  refine (hs.weaken hweak).create rfl ?_ ?_
  · obtain ⟨first, hfirst, hopened⟩ := hs.opened row hmem
    exact ⟨first, by rw [openings_append]; exact List.mem_append_left _ hfirst,
      hopened.1.trans huser, hopened.2.trans hsession⟩
  · intro presented' row' next' hn
    cases hn
    exact ⟨hs.granted row hmem, hhash, fun row' hrow' hid' =>
      used_of_markUsed hs hrow (List.mem_of_mem_filter hrow') hid'⟩

/-- Marking the active row of a session leaves it none. -/
theorem activeOf_rotated (hsingle : Single setup h db) (hrow : db.markable id = some row) :
    ((db.markUsed id).pruneStale userId now).activeOf row.userId row.sessionId = [] := by
  obtain ⟨hmem, hid, hactive⟩ := markable_some hrow
  have hweak := (weakens_markUsed db id).trans (weakens_pruneStale _ userId now)
  refine List.eq_nil_iff_forall_not_mem.2 fun other hother => ?_
  have hne : other.id ≠ id :=
    id_ne_of_markUsed (((weakens_pruneStale _ userId now).active _ _).subset hother)
  have hold := (hweak.active _ _).subset hother
  have hself : row ∈ db.activeOf row.userId row.sessionId :=
    mem_activeOf.2 ⟨hmem, rfl, rfl, hactive⟩
  obtain ⟨only, honly⟩ : ∃ only, db.activeOf row.userId row.sessionId = [only] := by
    have hle := hsingle.atMostOne row.userId row.sessionId
    match hrows : db.activeOf row.userId row.sessionId with
    | [] => simp [hrows] at hself
    | [only] => exact ⟨only, rfl⟩
    | _ :: _ :: _ => simp [hrows] at hle
  rw [honly, List.mem_singleton] at hold hself
  exact hne (by rw [hold, ← hself, hid])

/-- A refresh that goes through is rightful. -/
theorem rotates (hraw : ∀ token, setup.verifyRefresh (setup.sha256Hex token) = none)
    (he : Entitled setup h presented id input) (hs : Stored setup.sha256Hex h db)
    (hfresh : Fresh h) (hsingle : Single setup h db) (hrow : db.markable id = some row) :
    Rotates setup.sha256Hex h presented row (rowOf setup.sha256Hex input db.nextId now) := by
  obtain ⟨hhash, huser, hsession⟩ := he.holds hraw hs hrow
  obtain ⟨hmem, hid, hactive⟩ := markable_some hrow
  refine ⟨hactive, hhash, ⟨huser.symm, hsession.symm⟩, he.previous.trans hhash.symm,
    fun presented' row' next' hn htoken => ?_, fun hrevoked => ?_⟩
  · -- one token, one row; and that row was used up before
    obtain ⟨⟨grant', hgrant', hsame'⟩, hhash', hused⟩ := hs.consumed presented' row' next' hn
    obtain ⟨grant, hgrant, hsame⟩ := hs.granted row hmem
    have hgrants : grant = grant' := List.inj_on_of_nodup_map hfresh.tokens hgrant hgrant' (by
      rw [← hsame.refreshToken, ← hsame'.refreshToken, hhash, hhash', htoken])
    have hdone := hused row hmem (by rw [hsame.id, hsame'.id, hgrants])
    simp [RefreshTokenSchema.active, hdone] at hactive
  · have hself : row ∈ db.activeOf row.userId row.sessionId :=
      mem_activeOf.2 ⟨hmem, rfl, rfl, hactive⟩
    rw [hsingle.dead _ _ hrevoked] at hself
    cases hself

theorem Single.rotate (hraw : ∀ token, setup.verifyRefresh (setup.sha256Hex token) = none)
    (he : Entitled setup h presented id input) (hs : Stored setup.sha256Hex h db)
    (hfresh : Fresh h) (hsingle : Single setup h db) (hrow : db.markable id = some row) :
    Single setup (h ++ [.rotated presented row (rowOf setup.sha256Hex input db.nextId now)])
      (db.rotate setup.sha256Hex id input now) := by
  obtain ⟨-, huser, hsession⟩ := he.holds hraw hs hrow
  have hright : Rotates setup.sha256Hex h presented row
      (rowOf setup.sha256Hex input db.nextId now) := rotates hraw he hs hfresh hsingle hrow
  have hweak := (weakens_markUsed db id).trans (weakens_pruneStale _ input.userId now)
  have hweakened := hsingle.weaken hweak
  refine ⟨fun u s => ?_, fun u s hrevoked => ?_, hsingle.rightful.concat hright⟩
  · rw [Db.rotate, activeOf_create]
    split
    · rename_i hsame
      rw [← hsame.1, ← hsame.2, ← huser, ← hsession, activeOf_rotated hsingle hrow]
      exact le_rfl
    · rw [List.append_nil]
      exact hweakened.atMostOne u s
  · have hold : Revoked h u s := by
      rcases hrevoked.of_concat with hold | ⟨_, _, hn, -⟩
      · exact hold
      · cases hn
    rw [Db.rotate, activeOf_create, hweakened.dead u s hold, if_neg, List.append_nil]
    rintro ⟨hu, hss⟩
    exact hright.unrevoked (by rw [huser, hsession, hu, hss]; exact hold)

theorem Single.open (hs : Stored setup.sha256Hex h db) (hsingle : Single setup h db)
    (hfresh : Fresh (h ++ [.opened (rowOf setup.sha256Hex input db.nextId now)])) :
    Single setup (h ++ [.opened (rowOf setup.sha256Hex input db.nextId now)])
      (db.create setup.sha256Hex input now) := by
  have hnew : ∀ first ∈ openings h, first.sessionId ≠ input.sessionId := by
    have hnodup := hfresh.sessions
    rw [openings_append, List.map_append, List.nodup_append] at hnodup
    exact fun first hfirst => hnodup.2.2 _ (List.mem_map_of_mem hfirst) _ List.mem_cons_self
  refine ⟨fun u s => ?_, fun u s hrevoked => ?_, hsingle.rightful.concat trivial⟩
  · rw [activeOf_create]
    split
    · rename_i hsame
      have hnone : db.activeOf u s = [] := List.eq_nil_iff_forall_not_mem.2 fun other hother => by
        obtain ⟨hmem, -, hsession, -⟩ := mem_activeOf.1 hother
        obtain ⟨first, hfirst, hopened⟩ := hs.opened other hmem
        exact hnew first hfirst (by rw [hopened.2, hsession, hsame.2])
      rw [hnone]
      exact le_rfl
    · rw [List.append_nil]
      exact hsingle.atMostOne u s
  · have hold : Revoked h u s := by
      rcases hrevoked.of_concat with hold | ⟨_, _, hn, -⟩
      · exact hold
      · cases hn
    rw [activeOf_create, hsingle.dead u s hold, if_neg, List.append_nil]
    rintro ⟨-, rfl⟩
    obtain ⟨first, hfirst, -, hsession⟩ := hold.opened
    exact hnew first hfirst hsession

theorem Single.revoke {scope : SessionRevocationScope} (hsingle : Single setup h db) :
    Single setup (h ++ [.revoked userId scope sessionId])
      (db.invalidate userId scope sessionId) := by
  have hweakened := hsingle.weaken (weakens_invalidate db userId scope sessionId)
  refine ⟨hweakened.atMostOne, fun u s hrevoked => ?_, hsingle.rightful.concat trivial⟩
  rcases hrevoked.of_concat with hold | ⟨scope', keep, hn, htarget⟩
  · exact hweakened.dead u s hold
  · cases hn
    exact activeOf_invalidate htarget

theorem Single.refuse {input : RefreshTokenInput} {refusal : Refusal} (hsingle : Single setup h db)
    (hright : (Note.refused input refusal).Rightful setup h) :
    Single setup (h ++ [.refused input refusal]) db := by
  refine ⟨hsingle.atMostOne, fun u s hrevoked => ?_, hsingle.rightful.concat hright⟩
  rcases hrevoked.of_concat with hold | ⟨_, _, hn, -⟩
  · exact hsingle.dead u s hold
  · cases hn

/-- The invariant of a run: the rows are stored as the notes say, and one is active as long as
what is drawn is new. -/
def Kept (setup : Setup) (h : List Note) (db : Db) : Prop :=
  Stored setup.sha256Hex h db ∧ (Fresh h → Single setup h db)

theorem kept_start : Kept setup [] {} :=
  ⟨⟨by simp, by simp, by simp, by simp, by simp [grants], by simp [grants], by simp [grants],
    by simp⟩, fun _ => ⟨by simp [Db.activeOf], by simp [Db.activeOf], Chronicle.nil⟩⟩

theorem kept_exec (hraw : ∀ token, setup.verifyRefresh (setup.sha256Hex token) = none)
    {env : Outside} {op : Op} (hkept : Kept setup h db) (hneed : need setup (h, db) op) :
    Kept setup (h ++ (exec setup.sha256Hex env op db).2.1)
      (exec setup.sha256Hex env op db).2.2 := by
  obtain ⟨hs, hsingle⟩ := hkept
  cases op with
  | now | findActiveBySession | fetchIdentityUser | newSessionId | generate =>
    simpa only [exec, notes, effect, List.append_nil] using ⟨hs, hsingle⟩
  | create input =>
    refine ⟨hs.create rfl ⟨rowOf setup.sha256Hex input db.nextId env.now, ?_, rfl, rfl⟩
      (fun _ _ _ hn => nomatch hn), fun hfresh => ?_⟩
    · rw [openings_append]
      exact List.mem_append_right _ List.mem_cons_self
    · exact Single.open hs (hsingle hfresh.of_append) hfresh
  | rotate presented id input =>
    simp only [exec, notes, effect]
    cases hrow : db.markable id with
    | none =>
      simpa only [Option.isSome_none, Bool.false_eq_true, if_false, Option.toList_none,
        List.map_nil, List.append_nil] using ⟨hs, hsingle⟩
    | some row =>
      exact ⟨hs.rotate hraw hneed hrow, fun hfresh =>
        Single.rotate hraw hneed hs hfresh.of_append (hsingle hfresh.of_append) hrow⟩
  | invalidate userId scope sessionId =>
    exact ⟨(hs.weaken (weakens_invalidate _ _ _ _)).note rfl rfl,
      fun hfresh => (hsingle hfresh.of_append).revoke⟩
  | prune userId =>
    simp only [exec, notes, effect, List.append_nil]
    exact ⟨hs.weaken (weakens_pruneStale _ _ _),
      fun hfresh => (hsingle hfresh).weaken (weakens_pruneStale _ _ _)⟩
  | refuse input refusal =>
    exact ⟨hs.note rfl rfl, fun hfresh => (hsingle hfresh.of_append).refuse hneed⟩

theorem fact_exec {env : Outside} {op : Op} (hs : Stored setup.sha256Hex h db) :
    fact (h ++ (exec setup.sha256Hex env op db).2.1, (exec setup.sha256Hex env op db).2.2) op
      (exec setup.sha256Hex env op db).1 := by
  cases op with
  | findActiveBySession userId sessionId =>
    intro row hrow
    obtain ⟨hmem, huser, hsession, -⟩ := mem_activeOf.1 (List.mem_of_getLast? hrow)
    obtain ⟨grant, hgrant, hsame⟩ := hs.granted row hmem
    exact ⟨huser, hsession, grant, grants_subset (List.subset_append_left _ _) hgrant, hsame⟩
  | invalidate userId scope sessionId =>
    exact List.mem_append_right _ List.mem_cons_self
  | _ => trivial

open Auth.Refresh.AuthFeatureService in
/-- **Refresh rotation is safe**, in every run in which the tokens and session ids that are drawn
are new and no hash is itself a token: a session has at most one active row; a refresh that goes
through was asked with the token of that row, used for the first time, in a session that was not
revoked; and a refresh that is asked with another token only settles that and is refused, which is
answered once the session is revoked, unless a rotation raced. -/
theorem rotation_safe (hraw : ∀ token, setup.verifyRefresh (setup.sha256Hex token) = none)
    {p : Pool Db Op Op.Ans} (hrun : Run (Step setup) start h p) (hfresh : Fresh h) :
    (∀ userId sessionId, (p.shared.activeOf userId sessionId).length ≤ 1) ∧
      Chronicle (Note.Rightful setup) h ∧
      ∀ input presented existing, existing.refreshToken ≠ presented.tokenHash →
        existing.refreshToken ≠ presented.token →
        refreshFrom setup input presented existing =
          (settleStaleToken setup existing input presented.tokenHash >>= fun now =>
            refuse input (.stale existing now)) := by
  obtain ⟨-, hkept⟩ := Pool.invariant_of_heeds (T := terms setup)
    (J := fun h db _ => Kept setup h db) hrun kept_start
    (fun h db m env op hJ hneed => ⟨kept_exec hraw hJ hneed, fact_exec hJ.1,
      List.subset_append_left _ _⟩) fun request w => heeds_program request
  exact ⟨(hkept.2 hfresh).atMostOne, (hkept.2 hfresh).rightful,
    fun input presented existing hhash htoken => by simp only [refreshFrom, hhash, htoken, ne_eq,
      not_false_eq_true, and_self, if_true]⟩

end Operations

/-! ### A run -/

/-- A setup whose hash marks what it is given, and whose tokens name the session 1. -/
def markedSetup : Setup where
  sha256Hex token := "#" ++ token
  verifyRefresh token :=
    if token.toList.head? = some '#' then none else some ⟨1, "s", by decide⟩
  credentialMode := true
  isStableUserAgent _ := true
  credentialFingerprint _ _ := ""
  addressFingerprint _ _ := ""
  refreshTtlSeconds := 100

/-- A device asks with this token. -/
def asking (token : String) : RefreshTokenInput := ⟨token, "d", "a", "", "", .web, "", ""⟩

/-- The first login, a refresh, and another one with the token that was used up. -/
def threeRequests : List (Event Outside Request) :=
  [.spawn (.login 1 (asking "")), .run 0 { sessionId := "s" }, .run 0 { tokens := ⟨"a1", "t1"⟩ },
   .run 0 {}, .run 0 {},
   .spawn (.refresh (asking "t1")), .run 1 {}, .run 1 {}, .run 1 {},
   .run 1 { tokens := ⟨"a2", "t2"⟩ }, .run 1 {},
   .spawn (.refresh (asking "t1")), .run 2 {}, .run 2 { now := 90 }, .run 2 {}, .run 2 {}]
theorem markedSetup_hash (token : String) :
    markedSetup.verifyRefresh (markedSetup.sha256Hex token) = none := by
  simp [markedSetup]

/-- The token that comes back revokes the session. -/
theorem rotation_safe_three : ∃ h p, Run (Step markedSetup) start h p ∧
    .revoked 1 .one "s" ∈ h ∧ Chronicle (Note.Rightful markedSetup) h ∧
    (p.shared.activeOf 1 "s").length ≤ 1 := by
  obtain ⟨⟨p, h⟩, hplay, hfacts⟩ := Option.any_eq_true _ _ |>.1
    (show ((Pool.replay (exec markedSetup.sha256Hex) (program markedSetup) start []
      threeRequests).any fun r => decide (.revoked 1 .one "s" ∈ r.2) &&
        decide (((grants r.2).map (·.refreshToken)).Nodup) &&
        decide (((openings r.2).map (·.sessionId)).Nodup)) = true from by decide +kernel)
  simp only [Bool.and_eq_true, decide_eq_true_eq] at hfacts
  have hrun := Pool.run_of_replay .start hplay
  obtain ⟨hone, hrightful, -⟩ := rotation_safe markedSetup_hash hrun ⟨hfacts.1.2, hfacts.2⟩
  exact ⟨h, p, hrun, hfacts.1.1, hrightful, hone 1 "s"⟩

end Auth.Refresh

end ArgusBackend
