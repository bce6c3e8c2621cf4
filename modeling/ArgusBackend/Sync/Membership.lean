import ArgusBackend.Library.Runs
import ArgusBackend.Sync.Rooms

/-!
# A room message reaches the members of the room

`joined` reads off the events which rooms a connection joined itself.  As long as no connection
comes under an address with rooms of another connection that it does not join itself, the maps tell
the same (`Kept`), and a message goes to the connections that joined.

* `agree_act`, `kept_act` : one event;
* `message_reaches_members` : every run.
-/

namespace ArgusBackend

namespace Sync

namespace Rooms

open Local

/-- What an event makes of the rooms that a connection joined. -/
def Event.joins (conn : Conn) (rooms : Finset RoomId) : Event → Finset RoomId
  | .join room conn' => if conn' = conn then insert room rooms else rooms
  | .joinMany rooms' conn' => if conn' = conn then rooms'.toFinset ∪ rooms else rooms
  | .leave room conn' => if conn' = conn then rooms.erase room else rooms
  | .leaveAll conn' => if conn' = conn then ∅ else rooms
  | .reconcileRoleRooms desired conn' =>
    if conn' = conn then
      desired.toFinset ∪
        rooms.filter fun room => ¬(isRoleScopedRoom room = true ∧ room ∉ desired)
    else rooms
  | _ => rooms

/-- The rooms that a connection joined itself and has not left since. -/
def joined (h : List Event) (conn : Conn) : Finset RoomId :=
  h.foldl (fun rooms event => event.joins conn rooms) ∅

/-- The rooms that the address of a connection has from another one. -/
def carried (g : Local) (conn : Conn) : List RoomId :=
  match g.weakRefs.lookup conn.raw with
  | none => []
  | some conn' => if conn' = conn then [] else g.reverseOf conn.raw

/-- A connection that joins rooms joins those, too, that its address has from another one; a role
may also take them away. -/
def Clean (s : Loop) : Event → Prop
  | .join room conn => ∀ r ∈ carried s.g_local conn, r = room
  | .joinMany rooms conn => ∀ r ∈ carried s.g_local conn, r ∈ rooms
  | .reconcileRoleRooms desired conn =>
    ∀ r ∈ carried s.g_local conn, isRoleScopedRoom r = true ∨ r ∈ desired
  | _ => True

/-- What the maps tell of the rooms that the connections joined. -/
structure Kept (J : Conn → Finset RoomId) (s : Loop) : Prop where
  distinct : ∀ c ∈ s.objects, ∀ c' ∈ s.objects, c.raw = c'.raw → c = c'
  fresh : ∀ c ∈ s.objects, c.id < s.created
  unused : ∀ c, s.created ≤ c.id → J c = ∅
  tracked : ∀ raw room, room ∈ s.g_local.reverseOf raw → s.g_local.weakRefs.lookup raw ≠ none
  known : ∀ raw c, s.g_local.weakRefs.lookup raw = some c → c.id < s.created ∧ c.raw = raw
  mine : ∀ c ∈ s.objects, s.g_local.weakRefs.lookup c.raw = some c →
    ∀ room ∈ s.g_local.reverseOf c.raw, room ∈ J c
  all : ∀ c ∈ s.objects, c ∉ s.closed → ∀ room ∈ J c,
    s.g_local.weakRefs.lookup c.raw = some c ∧ room ∈ s.g_local.reverseOf c.raw

section Steps

variable {s s' : Loop} {g : Local} {conn : Conn} {raw : Raw} {J J' : Conn → Finset RoomId}
  {P : RoomId → Prop} {event : Event}

/-! ### The rooms and the addresses agree -/

theorem agree_prunes (raws : List Raw) (hagree : g.Agree) : (raws.foldl leaveAllLocal g).Agree := by
  induction raws generalizing g with
  | nil => exact hagree
  | cons raw raws ih => exact ih ((leaves_leaveAllLocal g raw).agree hagree)

theorem agree_visitLoop (objects closed : List Conn) (raws : List Raw) (hagree : g.Agree) :
    (visitLoop objects closed g raws).2.Agree := by
  induction raws generalizing g with
  | nil => exact hagree
  | cons raw raws ih =>
    unfold visitLoop
    split
    · exact ih hagree
    · split_ifs
      · exact ih hagree
      · exact ih ((leaves_leaveAllLocal g raw).agree hagree)

theorem agree_act (hact : s.act event = some s') (hagree : s.g_local.Agree) : s'.g_local.Agree := by
  have hcall {conn : Conn} {f : Local → Local} (hact : s.call conn f = some s')
      (hf : (f s.g_local).Agree) : s'.g_local.Agree := by
    unfold Loop.call at hact
    split_ifs at hact
    exact Option.some.inj hact ▸ hf
  cases event <;> rw [Loop.act] at hact
  case accept raw =>
    split_ifs at hact
    exact Option.some.inj hact ▸ hagree
  case close conn => exact Option.some.inj hact ▸ hagree
  case destroy conn => exact Option.some.inj hact ▸ hagree
  case join room conn => exact hcall hact ((enters_join s.g_local room conn).agree hagree)
  case joinMany rooms conn => exact hcall hact ((enters_joinMany s.g_local rooms conn).agree hagree)
  case leave room conn => exact hcall hact ((leaves_leave s.g_local room conn).agree hagree)
  case leaveAll conn => exact hcall hact ((leaves_leaveAllLocal s.g_local conn.raw).agree hagree)
  case reconcileRoleRooms desired conn =>
    exact hcall hact ((enters_reconcileRoleRooms s.g_local desired conn).agree hagree)
  case visitLocalMembers room =>
    exact Option.some.inj hact ▸ agree_visitLoop s.objects s.closed _ hagree
  case emitLocalRoomsView rooms => exact Option.some.inj hact ▸ agree_prunes _ hagree
  case pruneAllDeadConnections => exact Option.some.inj hact ▸ agree_prunes _ hagree

/-! ### What the maps tell -/

/-- The rooms of an address are those of its connection, or they come from another one. -/
theorem Kept.carried_or_mine (hkept : Kept J s) (hconn : conn ∈ s.objects) {room : RoomId}
    (hroom : room ∈ s.g_local.reverseOf conn.raw) :
    room ∈ carried s.g_local conn ∨ room ∈ J conn := by
  obtain ⟨conn', hweak⟩ := Option.ne_none_iff_exists'.1 (hkept.tracked conn.raw room hroom)
  by_cases hsame : conn' = conn
  · exact .inr (hkept.mine conn hconn (hsame ▸ hweak) room hroom)
  · refine .inl ?_
    simp only [carried, hweak, if_neg hsame]
    exact hroom

/-- A connection enters, and its rooms become those it joined. -/
theorem Kept.enters (hkept : Kept J s) (hconn : conn ∈ s.objects)
    (henters : Enters s.g_local g conn P) (hothers : ∀ c ≠ conn, J' c = J c)
    (hmine : ∀ room, P room → room ∈ J' conn)
    (hall : conn ∉ s.closed → ∀ room ∈ J' conn, P room) : Kept J' { s with g_local := g } where
  distinct := hkept.distinct
  fresh := hkept.fresh
  unused c hc := by
    have hne : c ≠ conn := fun heq => absurd (hkept.fresh conn hconn) (heq ▸ not_lt.2 hc)
    rw [hothers c hne, hkept.unused c hc]
  tracked raw room hroom := by
    by_cases hraw : raw = conn.raw
    · rw [hraw, henters.tracked]
      exact Option.some_ne_none conn
    · rw [henters.weakRefs raw hraw]
      exact hkept.tracked raw room ((henters.others raw hraw room).1 hroom)
  known raw c hweak := by
    by_cases hraw : raw = conn.raw
    · subst hraw
      obtain rfl : conn = c := Option.some.inj (henters.tracked.symm.trans hweak)
      exact ⟨hkept.fresh conn hconn, rfl⟩
    · exact hkept.known raw c ((henters.weakRefs raw hraw).symm.trans hweak)
  mine c hc hweak room hroom := by
    by_cases hne : c = conn
    · subst hne
      exact hmine room ((henters.rooms room).1 hroom)
    · have hraw : c.raw ≠ conn.raw := fun heq => hne (hkept.distinct c hc conn hconn heq)
      rw [hothers c hne]
      exact hkept.mine c hc ((henters.weakRefs _ hraw).symm.trans hweak) room
        ((henters.others _ hraw room).1 hroom)
  all c hc hopen room hroom := by
    by_cases hne : c = conn
    · subst hne
      exact ⟨henters.tracked, (henters.rooms room).2 (hall hopen room hroom)⟩
    · have hraw : c.raw ≠ conn.raw := fun heq => hne (hkept.distinct c hc conn hconn heq)
      rw [hothers c hne] at hroom
      obtain ⟨hweak, hmem⟩ := hkept.all c hc hopen room hroom
      exact ⟨(henters.weakRefs _ hraw).trans hweak, (henters.others _ hraw room).2 hmem⟩

/-- Rooms of an address are left. -/
theorem Kept.leaves (hkept : Kept J s) (hleaves : Leaves s.g_local g raw P)
    (hless : ∀ c, J' c ⊆ J c) (hothers : ∀ c ∈ s.objects, c.raw ≠ raw → J' c = J c)
    (hmine : ∀ c ∈ s.objects, c.raw = raw → s.g_local.weakRefs.lookup raw = some c →
      ∀ room, P room → room ∈ J' c)
    (hall : ∀ c ∈ s.objects, c.raw = raw → c ∉ s.closed → ∀ room ∈ J' c, P room) :
    Kept J' { s with g_local := g } where
  distinct := hkept.distinct
  fresh := hkept.fresh
  unused c hc := Finset.subset_empty.1 (hkept.unused c hc ▸ hless c)
  tracked raw' room hroom := by
    by_cases hraw : raw' = raw
    · subst hraw
      have hP := (hleaves.rooms room).1 hroom
      rcases hleaves.tracked with hsame | ⟨-, hnone⟩
      · rw [hsame]
        exact hkept.tracked raw' room (hleaves.less room hP)
      · exact absurd hP (hnone room)
    · rw [hleaves.weakRefs raw' hraw]
      exact hkept.tracked raw' room ((hleaves.others raw' hraw room).1 hroom)
  known raw' c hweak := by
    by_cases hraw : raw' = raw
    · subst hraw
      rcases hleaves.tracked with hsame | ⟨hnone, -⟩
      · exact hkept.known raw' c (hsame.symm.trans hweak)
      · simp [hnone] at hweak
    · exact hkept.known raw' c ((hleaves.weakRefs raw' hraw).symm.trans hweak)
  mine c hc hweak room hroom := by
    by_cases hraw : c.raw = raw
    · subst hraw
      rcases hleaves.tracked with hsame | ⟨hnone, -⟩
      · exact hmine c hc rfl (hsame.symm.trans hweak) room ((hleaves.rooms room).1 hroom)
      · simp [hnone] at hweak
    · rw [hothers c hc hraw]
      exact hkept.mine c hc ((hleaves.weakRefs _ hraw).symm.trans hweak) room
        ((hleaves.others _ hraw room).1 hroom)
  all c hc hopen room hroom := by
    obtain ⟨hweak, hmem⟩ := hkept.all c hc hopen room (hless c hroom)
    by_cases hraw : c.raw = raw
    · subst hraw
      have hP := hall c hc rfl hopen room hroom
      rcases hleaves.tracked with hsame | ⟨-, hnone⟩
      · exact ⟨hsame.trans hweak, (hleaves.rooms room).2 hP⟩
      · exact absurd hP (hnone room)
    · exact ⟨(hleaves.weakRefs _ hraw).trans hweak, (hleaves.others _ hraw room).2 hmem⟩

/-- An address whose connection is destroyed or not connected any more. -/
def Gone (objects closed : List Conn) (g : Local) (raw : Raw) : Prop :=
  ∀ c, g.weakRefs.lookup raw = some c → c ∈ objects → c ∈ closed

theorem Gone.leaveAllLocal {objects closed : List Conn} {raw' : Raw}
    (hgone : Gone objects closed g raw) : Gone objects closed (g.leaveAllLocal raw') raw :=
  fun c hweak => hgone c (by
    have hleaves := leaves_leaveAllLocal g raw'
    by_cases hraw : raw = raw'
    · subst hraw
      rcases hleaves.tracked with hsame | ⟨hnone, -⟩
      · exact hsame.symm.trans hweak
      · simp [hnone] at hweak
    · exact (hleaves.weakRefs raw hraw).symm.trans hweak)

theorem Kept.prune (hkept : Kept J s) (hgone : Gone s.objects s.closed s.g_local raw) :
    Kept J { s with g_local := s.g_local.leaveAllLocal raw } := by
  refine hkept.leaves (leaves_leaveAllLocal s.g_local raw) (fun _ => Finset.Subset.refl _)
    (fun _ _ _ => rfl) (fun _ _ _ _ _ => False.elim) fun c hc hraw hopen room hroom => ?_
  subst hraw
  exact hopen (hgone c (hkept.all c hc hopen room hroom).1 hc)

theorem Kept.prunes (raws : List Raw) (hkept : Kept J s)
    (hgone : ∀ raw ∈ raws, Gone s.objects s.closed s.g_local raw) :
    Kept J { s with g_local := raws.foldl Local.leaveAllLocal s.g_local } := by
  induction raws generalizing s with
  | nil => exact hkept
  | cons raw raws ih =>
    rw [List.forall_mem_cons] at hgone
    exact ih (hkept.prune hgone.1) fun raw' hraw' => (hgone.2 raw' hraw').leaveAllLocal

theorem Kept.visitLoop (raws : List Raw) (hkept : Kept J s) :
    Kept J { s with g_local := (visitLoop s.objects s.closed s.g_local raws).2 } := by
  induction raws generalizing s with
  | nil => exact hkept
  | cons raw raws ih =>
    unfold Local.visitLoop
    split
    · exact ih hkept
    next conn hweak =>
      split_ifs with hopen
      · exact ih hkept
      · refine ih (s := { s with g_local := s.g_local.leaveAllLocal raw }) (hkept.prune ?_)
        intro c hc hobject
        obtain rfl : conn = c := Option.some.inj (hweak.symm.trans hc)
        exact not_not.1 fun hclosed => hopen ⟨hobject, hclosed⟩

/-! ### Messages -/

variable {objects closed : List Conn}

theorem mem_emitLoop {raws seen : List Raw} : conn ∈ (g.emitLoop objects raws seen).1 ↔
    conn ∈ objects ∧ ∃ raw ∈ raws, raw ∉ seen ∧ g.weakRefs.lookup raw = some conn := by
  induction raws generalizing seen with
  | nil => simp [emitLoop]
  | cons raw raws ih =>
    unfold emitLoop
    split_ifs with hseen
    · rw [ih]
      simp [hseen]
    · split
      next hnone =>
        rw [ih]
        simp only [List.mem_cons, not_or, exists_eq_or_imp, hnone, reduceCtorEq, and_false, false_or]
        refine and_congr_right fun _ => exists_congr fun raw' => and_congr_right fun _ => ?_
        refine ⟨fun h => ⟨h.1.2, h.2⟩, fun h => ⟨⟨?_, h.1⟩, h.2⟩⟩
        rintro rfl
        simp [hnone] at h
      next c hweak =>
        have hrest : (∃ raw' ∈ raws, raw' ∉ raw :: seen ∧ g.weakRefs.lookup raw' = some conn) ∨
            c = conn ↔ ∃ raw' ∈ raw :: raws, raw' ∉ seen ∧ g.weakRefs.lookup raw' = some conn := by
          simp only [List.mem_cons, not_or, exists_eq_or_imp, hweak, Option.some.injEq]
          constructor
          · rintro (⟨raw', hmem, ⟨-, hnew⟩, hlookup⟩ | rfl)
            · exact .inr ⟨raw', hmem, hnew, hlookup⟩
            · exact .inl ⟨hseen, rfl⟩
          · rintro (⟨-, rfl⟩ | ⟨raw', hmem, hnew, hlookup⟩)
            · exact .inr rfl
            · by_cases hraw : raw' = raw
              · subst hraw
                exact .inr (Option.some.inj (hweak.symm.trans hlookup))
              · exact .inl ⟨raw', hmem, ⟨hraw, hnew⟩, hlookup⟩
        rw [← hrest]
        dsimp only
        split_ifs with hobject
        · rw [List.mem_cons, ih]
          constructor
          · rintro (rfl | ⟨hin, hex⟩)
            · exact ⟨hobject, .inr rfl⟩
            · exact ⟨hin, .inl hex⟩
          · rintro ⟨hin, hex | rfl⟩
            · exact .inr ⟨hin, hex⟩
            · exact .inl rfl
        · rw [ih]
          refine and_congr_right fun hin => ⟨.inl, fun h => h.resolve_right ?_⟩
          rintro rfl
          exact hobject hin

theorem nodup_emitLoop (hknown : ∀ raw c, g.weakRefs.lookup raw = some c → c.raw = raw)
    (raws seen : List Raw) : (g.emitLoop objects raws seen).1.Nodup := by
  induction raws generalizing seen with
  | nil => exact .nil
  | cons raw raws ih =>
    unfold emitLoop
    split_ifs with hseen
    · exact ih seen
    · split
      · exact ih _
      next c hweak =>
        dsimp only
        split_ifs
        · refine (ih _).cons fun hmem => ?_
          obtain ⟨-, raw', -, hnew, hlookup⟩ := mem_emitLoop.1 hmem
          have hsame : raw' = raw := (hknown raw' c hlookup).symm.trans (hknown raw c hweak)
          exact hnew (hsame ▸ List.mem_cons_self)
        · exact ih _

theorem gone_of_dead {raws seen : List Raw} (hdead : raw ∈ (g.emitLoop objects raws seen).2) :
    Gone objects closed g raw := by
  induction raws generalizing seen with
  | nil => cases hdead
  | cons raw' raws ih =>
    unfold emitLoop at hdead
    split_ifs at hdead with hseen
    · exact ih hdead
    · split at hdead
      · exact ih hdead
      next c hweak =>
        dsimp only at hdead
        split_ifs at hdead with hobject
        · exact ih hdead
        · rcases List.mem_cons.1 hdead with rfl | hdead
          · intro c' hlookup hin
            obtain rfl : c = c' := Option.some.inj (hweak.symm.trans hlookup)
            exact absurd hin hobject
          · exact ih hdead

theorem gone_of_expired {raw : Raw}
    (hraw : raw ∈ (g.weakRefs.entries.filter fun e => e.2 ∉ objects).map (·.1)) :
    Gone objects closed g raw := by
  obtain ⟨⟨raw', c⟩, hentry, rfl⟩ := List.mem_map.1 hraw
  obtain ⟨hentry, hexpired⟩ := List.mem_filter.1 hentry
  intro c' hlookup hin
  have hc : g.weakRefs.lookup raw' = some c := AList.mem_lookup_iff.2 hentry
  obtain rfl : c = c' := Option.some.inj (hc.symm.trans hlookup)
  exact absurd hin (by simpa using hexpired)

/-! ### One event -/

theorem Kept.call {f : Local → Local} {s' : Loop} (hact : s.call conn f = some s')
    (hkept : conn ∈ s.objects → Kept J' { s with g_local := f s.g_local }) : Kept J' s' := by
  unfold Loop.call at hact
  split_ifs at hact with hconn
  exact Option.some.inj hact ▸ hkept hconn

/-- What an event keeps. -/
theorem kept_act {h : List Event} (hkept : Kept (joined h) s) (hclean : Clean s event)
    (hact : s.act event = some s') : Kept (joined (h ++ [event])) s' := by
  have hjoined (c : Conn) : joined (h ++ [event]) c = event.joins c (joined h c) := by
    rw [joined, List.foldl_append]
    rfl
  cases event <;> rw [Loop.act] at hact
  case accept raw =>
    have hsame : joined (h ++ [.accept raw]) = joined h := funext hjoined
    rw [hsame]
    split_ifs at hact with hfree
    obtain rfl := Option.some.inj hact
    simp only [List.all_eq_true, decide_eq_true_eq] at hfree
    refine ⟨fun c hc c' hc' heq => ?_, fun c hc => ?_, fun c hc => hkept.unused c (by simp at hc; omega),
      hkept.tracked, fun raw' c hweak => ?_, fun c hc hweak => ?_, fun c hc hopen room hroom => ?_⟩
    · rcases List.mem_cons.1 hc with rfl | hc <;> rcases List.mem_cons.1 hc' with rfl | hc'
      · rfl
      · exact absurd heq.symm (hfree c' hc')
      · exact absurd heq (hfree c hc)
      · exact hkept.distinct c hc c' hc' heq
    · rcases List.mem_cons.1 hc with rfl | hc
      · exact Nat.lt_succ_self _
      · exact Nat.lt_succ_of_lt (hkept.fresh c hc)
    · exact ⟨Nat.lt_succ_of_lt (hkept.known raw' c hweak).1, (hkept.known raw' c hweak).2⟩
    · rcases List.mem_cons.1 hc with rfl | hc
      · exact absurd (hkept.known _ _ hweak).1 (lt_irrefl _)
      · exact hkept.mine c hc hweak
    · rcases List.mem_cons.1 hc with rfl | hc
      · rw [hkept.unused _ le_rfl] at hroom
        cases hroom
      · exact hkept.all c hc hopen room hroom
  case close conn =>
    have hsame : joined (h ++ [.close conn]) = joined h := funext hjoined
    rw [hsame]
    obtain rfl := Option.some.inj hact
    have hopen {c : Conn} (hopen : c ∉ conn :: s.closed) : c ∉ s.closed :=
      fun hclosed => hopen (List.mem_cons_of_mem _ hclosed)
    exact { hkept with all := fun c hc hc' => hkept.all c hc (hopen hc') }
  case destroy conn =>
    have hsame : joined (h ++ [.destroy conn]) = joined h := funext hjoined
    rw [hsame]
    obtain rfl := Option.some.inj hact
    have hin {c : Conn} (hc : c ∈ s.objects.filter (· ≠ conn)) : c ∈ s.objects :=
      List.mem_of_mem_filter hc
    exact ⟨fun c hc c' hc' => hkept.distinct c (hin hc) c' (hin hc'), fun c hc => hkept.fresh c (hin hc),
      hkept.unused, hkept.tracked, hkept.known, fun c hc => hkept.mine c (hin hc),
      fun c hc => hkept.all c (hin hc)⟩
  case join room conn =>
    refine Kept.call hact fun hconn => hkept.enters hconn (enters_join s.g_local room conn)
      (fun c hne => (hjoined c).trans (if_neg hne.symm)) (fun room' hroom => ?_)
      fun hopen room' hroom => ?_
    · rw [hjoined, Event.joins, if_pos rfl, Finset.mem_insert]
      rcases hroom with hroom | hroom
      · exact .inl (List.mem_singleton.1 hroom)
      · exact (hkept.carried_or_mine hconn hroom).imp_left (hclean room')
    · rw [hjoined, Event.joins, if_pos rfl, Finset.mem_insert] at hroom
      exact hroom.imp List.mem_singleton.2 fun hroom => (hkept.all conn hconn hopen room' hroom).2
  case joinMany rooms conn =>
    refine Kept.call hact fun hconn => hkept.enters hconn (enters_joinMany s.g_local rooms conn)
      (fun c hne => (hjoined c).trans (if_neg hne.symm)) (fun room' hroom => ?_)
      fun hopen room' hroom => ?_
    · rw [hjoined, Event.joins, if_pos rfl, Finset.mem_union, List.mem_toFinset]
      rcases hroom with hroom | hroom
      · exact .inl hroom
      · exact (hkept.carried_or_mine hconn hroom).imp_left (hclean room')
    · rw [hjoined, Event.joins, if_pos rfl, Finset.mem_union, List.mem_toFinset] at hroom
      exact hroom.imp_right fun hroom => (hkept.all conn hconn hopen room' hroom).2
  case reconcileRoleRooms desired conn =>
    refine Kept.call hact fun hconn => hkept.enters hconn
      (enters_reconcileRoleRooms s.g_local desired conn)
      (fun c hne => (hjoined c).trans (if_neg hne.symm)) (fun room' hroom => ?_)
      fun hopen room' hroom => ?_
    · rw [hjoined, Event.joins, if_pos rfl, Finset.mem_union, List.mem_toFinset, Finset.mem_filter]
      rcases hroom with hroom | ⟨hroom, hstays⟩
      · exact .inl hroom
      · rcases hkept.carried_or_mine hconn hroom with hcarried | hmine
        · exact .inl ((hclean room' hcarried).elim
            (fun hscoped => by_contra fun hout => hstays ⟨hscoped, hout⟩) id)
        · exact .inr ⟨hmine, hstays⟩
    · rw [hjoined, Event.joins, if_pos rfl, Finset.mem_union, List.mem_toFinset,
        Finset.mem_filter] at hroom
      exact hroom.imp_right fun hroom => ⟨(hkept.all conn hconn hopen room' hroom.1).2, hroom.2⟩
  case leave room conn =>
    refine Kept.call hact fun hconn => hkept.leaves (leaves_leave s.g_local room conn)
      (fun c => ?_)
      (fun c _ hraw =>
        (hjoined c).trans (if_neg fun heq : conn = c => hraw (congrArg Conn.raw heq.symm)))
      (fun c hc hraw hweak room' hroom => ?_) fun c hc hraw hopen room' hroom => ?_
    · rw [hjoined, Event.joins]
      split_ifs
      · exact Finset.erase_subset _ _
      · exact Finset.Subset.refl _
    · obtain rfl := hkept.distinct c hc conn hconn hraw
      rw [hjoined, Event.joins, if_pos rfl, Finset.mem_erase]
      exact ⟨hroom.2, hkept.mine c hc hweak room' hroom.1⟩
    · obtain rfl := hkept.distinct c hc conn hconn hraw
      rw [hjoined, Event.joins, if_pos rfl, Finset.mem_erase] at hroom
      exact ⟨(hkept.all c hc hopen room' hroom.2).2, hroom.1⟩
  case leaveAll conn =>
    refine Kept.call hact fun hconn => hkept.leaves (leaves_leaveAllLocal s.g_local conn.raw)
      (fun c => ?_)
      (fun c _ hraw =>
        (hjoined c).trans (if_neg fun heq : conn = c => hraw (congrArg Conn.raw heq.symm)))
      (fun _ _ _ _ _ => False.elim) fun c hc hraw hopen room' hroom => ?_
    · rw [hjoined, Event.joins]
      split_ifs
      · exact Finset.empty_subset _
      · exact Finset.Subset.refl _
    · obtain rfl := hkept.distinct c hc conn hconn hraw
      rw [hjoined, Event.joins, if_pos rfl] at hroom
      cases hroom
  case visitLocalMembers room =>
    have hsame : joined (h ++ [.visitLocalMembers room]) = joined h := funext hjoined
    rw [hsame]
    exact Option.some.inj hact ▸ hkept.visitLoop _
  case emitLocalRoomsView rooms =>
    have hsame : joined (h ++ [.emitLocalRoomsView rooms]) = joined h := funext hjoined
    rw [hsame]
    exact Option.some.inj hact ▸ hkept.prunes _ fun raw hraw => gone_of_dead hraw
  case pruneAllDeadConnections =>
    have hsame : joined (h ++ [.pruneAllDeadConnections]) = joined h := funext hjoined
    rw [hsame]
    exact Option.some.inj hact ▸ hkept.prunes _ fun raw hraw => gone_of_expired hraw

end Steps

/-! ### Runs -/

/-- **A room message reaches the members of the room.**  In every run the positions of a room are
those of its distinct members, and rooms and addresses agree; and when every connection that comes
under an address with rooms of another one joins these too, a message goes once to every connection
that joined one of the rooms, and to no other. -/
theorem message_reaches_members {h : List Event} {s : Loop}
    (hrun : Run (Loop.Step fun _ _ => True) {} h s) :
    (∀ room data, s.g_local.rooms.lookup room = some data → data.members.Nodup ∧
      ∀ raw i, data.index.lookup raw = some i ↔ data.members[i]? = some raw) ∧
    (∀ room raw, raw ∈ s.g_local.membersOf room ↔ room ∈ s.g_local.reverseOf raw) ∧
    (Run (Loop.Step Clean) {} h s → ∀ rooms,
      (s.g_local.emitLocalRoomsView s.objects rooms).1.Nodup ∧
      (∀ conn ∈ (s.g_local.emitLocalRoomsView s.objects rooms).1,
        conn ∈ s.objects ∧ ∃ room ∈ rooms, room ∈ joined h conn) ∧
      ∀ conn ∈ s.objects, conn ∉ s.closed → (∃ room ∈ rooms, room ∈ joined h conn) →
        conn ∈ (s.g_local.emitLocalRoomsView s.objects rooms).1) := by
  refine ⟨fun room data _ => ⟨data.nodup_members, data.inverse⟩, ?_, fun hclean rooms => ?_⟩
  · refine hrun.invariant (J := fun _ s => s.g_local.Agree) (fun room raw => ?_) ?_
    · simp [membersOf, reverseOf]
    · rintro h s notes s' hagree ⟨event, -, -, hact⟩
      exact agree_act hact hagree
  · obtain ⟨hkept, hagree⟩ := hclean.invariant (J := fun h s => Kept (joined h) s ∧ s.g_local.Agree)
      ⟨by constructor <;> simp [joined, reverseOf], fun room raw => by simp [membersOf, reverseOf]⟩
      (by
        rintro h s notes s' ⟨hkept, hagree⟩ ⟨event, rfl, hclean, hact⟩
        exact ⟨kept_act hkept hclean hact, agree_act hact hagree⟩)
    have hknown := fun raw c hweak => (hkept.known raw c hweak).2
    refine ⟨nodup_emitLoop hknown _ _, fun conn hsent => ?_, fun conn hconn hopen hex => ?_⟩
    · obtain ⟨hconn, raw, hraw, -, hweak⟩ := mem_emitLoop.1 hsent
      obtain ⟨room, hroom, hmem⟩ := List.mem_flatMap.1 hraw
      obtain rfl := hknown raw conn hweak
      exact ⟨hconn, room, hroom, hkept.mine conn hconn hweak room ((hagree room conn.raw).1 hmem)⟩
    · obtain ⟨room, hroom, hjoined⟩ := hex
      obtain ⟨hweak, hmem⟩ := hkept.all conn hconn hopen room hjoined
      exact mem_emitLoop.2 ⟨hconn, conn.raw,
        List.mem_flatMap.2 ⟨room, hroom, (hagree room conn.raw).2 hmem⟩, by simp, hweak⟩

/-- A socket is destroyed in a room, and the next one gets its address and joins the same room. -/
theorem message_reaches_members_again : ∃ h s, Run (Loop.Step Clean) {} h s ∧
    s.objects = [⟨1, 7⟩] ∧ ⟨1, 7⟩ ∈ (s.g_local.emitLocalRoomsView s.objects [1001]).1 := by
  have hstart : Run (Loop.Step Clean) {} [] {} := .start
  have hfirst := (hstart.next ⟨.accept 7, rfl, trivial, rfl⟩).next
    ⟨.join 1001 ⟨0, 7⟩, rfl, show ∀ r ∈ carried _ _, r = 1001 by decide +kernel, rfl⟩
  have hsecond := (hfirst.next ⟨.destroy ⟨0, 7⟩, rfl, trivial, rfl⟩).next
    ⟨.accept 7, rfl, trivial, rfl⟩
  have hclean := hsecond.next ⟨.joinMany [1001, 1002] ⟨1, 7⟩, rfl,
    show ∀ r ∈ carried _ _, r ∈ [1001, 1002] by decide +kernel, rfl⟩
  have hrun := hclean.mono fun _ _ _ => Loop.Step.free
  exact ⟨_, _, hclean, rfl, ((message_reaches_members hrun).2.2 hclean [1001]).2.2 ⟨1, 7⟩
    (by decide +kernel) (by decide +kernel) ⟨1001, by decide +kernel, by decide +kernel⟩⟩

/-- The next socket does not join the room of the one that was destroyed, and gets its messages. -/
theorem rooms_inherited : ∃ h s, Run (Loop.Step fun _ _ => True) {} h s ∧
    (s.g_local.emitLocalRoomsView s.objects [1001]).1 = [⟨1, 7⟩] ∧ 1001 ∉ joined h ⟨1, 7⟩ := by
  have hstart : Run (Loop.Step fun _ _ => True) {} [] {} := .start
  have hfirst := (hstart.next ⟨.accept 7, rfl, trivial, rfl⟩).next
    ⟨.join 1001 ⟨0, 7⟩, rfl, trivial, rfl⟩
  have hsecond := (hfirst.next ⟨.destroy ⟨0, 7⟩, rfl, trivial, rfl⟩).next
    ⟨.accept 7, rfl, trivial, rfl⟩
  have hrun := hsecond.next ⟨.join 1002 ⟨1, 7⟩, rfl, trivial, rfl⟩
  exact ⟨_, _, hrun, by decide +kernel, by decide +kernel⟩

end Rooms

end Sync

end ArgusBackend
