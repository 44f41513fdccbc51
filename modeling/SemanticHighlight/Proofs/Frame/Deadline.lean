import SemanticHighlight.Frame.Deadline
import SemanticHighlight.Proofs.Frame.Split

/-!
# Frames read before a deadline

A reader with a deadline gets the frames that any reader of the same bytes gets. If the stream ends
in time it reports what they report; if nothing more comes it reports its time-out where they report
the end of the stream. A time-out is reported for no other reason, whatever failures the stream has
of its own, in a length field and in a payload.
-/

set_option autoImplicit false

namespace SemanticHighlight.Frame

def Look.Flows : Look → Prop
  | .interrupted | .silent => True
  | .failed _ => False
  | .ready event => event.Flows

/-- The bytes that are read behind the looks, as long as there is time. -/
def seen : List Glance → Bytes
  | [] => []
  | ⟨_, .ready (.piece bs)⟩ :: gs => bs ++ seen gs
  | _ :: gs => seen gs

namespace Source

variable {after : Duration} {gs : List Glance}

theorem before_append (gs hs : List Glance) :
    before after (gs ++ hs) = before after gs ++ before after hs := by
  induction gs with
  | nil => rfl
  | cons g gs ih =>
    rw [List.cons_append, before, before, ih]
    split
    · rfl
    · split <;> rfl

theorem before_early {elapsed : Duration} (early : elapsed < after) (look : Look)
    (gs : List Glance) :
    before after (⟨elapsed, look⟩ :: gs) = match look with
      | .interrupted | .silent => before after gs
      | .failed cause => .failure (.failed cause) :: before after gs
      | .ready event => event :: before after gs :=
  if_neg (Nat.not_le.mpr early)

theorem before_late {late : Glance} (overdue : after ≤ late.elapsed) (gs : List Glance) :
    before after (late :: gs) = .failure (.expired after) :: before after gs := by
  rw [before, if_pos overdue]

theorem before_flowing (early : ∀ g ∈ gs, g.elapsed < after) (flows : ∀ g ∈ gs, g.look.Flows) :
    (before after gs).Flowing ∧ (before after gs).pending = seen gs := by
  induction gs with
  | nil => exact ⟨nofun, rfl⟩
  | cons g gs ih =>
    obtain ⟨flowing, pending⟩ := ih (fun g' hg => early g' (List.mem_cons_of_mem g hg))
      (fun g' hg => flows g' (List.mem_cons_of_mem g hg))
    have flow := flows g List.mem_cons_self
    obtain ⟨elapsed, look⟩ := g
    rw [before_early (early _ List.mem_cons_self)]
    cases look with
    | interrupted | silent => exact ⟨flowing, pending⟩
    | failed cause => exact flow.elim
    | ready event =>
      refine ⟨fun e he => ?_, ?_⟩
      · rcases List.mem_cons.mp he with rfl | he
        · exact flow
        · exact flowing e he
      · cases event with
        | piece bs => exact congrArg (bs ++ ·) pending
        | interrupted => exact pending
        | failure f => exact flow.elim

theorem untilDeadline_eq_before (bs : Bytes) (positive : 0 < after) :
    untilDeadline bs after =
      before after ((closed bs).map (⟨0, .ready ·⟩) ++ [⟨after, .silent⟩]) := by
  have seen : before after ((closed bs).map (⟨0, .ready ·⟩)) = closed bs := by
    unfold closed
    split
    · rfl
    · exact before_early positive _ []
  rw [before_append, seen, before_late (Nat.le_refl after), untilDeadline,
    if_neg (Nat.ne_of_gt positive)]
  rfl

end Source

section

variable {s later : Source}

theorem take_ending {n : Nat} (flowing : s.Flowing) (short : s.pending.length < n) :
    Source.take n (s ++ .piece [] :: later) = (.ok s.pending, later) := by
  have positive : n ≠ 0 := by omega
  induction s generalizing n with
  | nil => rw [List.nil_append, Source.take, if_neg positive]; rfl
  | cons e s ih =>
    have rest : Source.Flowing s := fun e' he => flowing e' (List.mem_cons_of_mem e he)
    cases e with
    | failure f => exact (flowing _ List.mem_cons_self).elim
    | interrupted =>
      rw [List.cons_append, Source.take, if_neg positive]
      exact ih rest short positive
    | piece bs =>
      have filled : bs ≠ [] := flowing _ List.mem_cons_self
      rw [Source.pending, List.length_append] at short
      rw [List.cons_append, Source.take, if_neg positive, if_neg filled, if_neg (by omega),
        ih rest (by omega) (by omega)]
      rfl

theorem read_ending {e : Error} (flowing : s.Flowing) (h : next s.pending = .error e) :
    ∃ s', read (s ++ .piece [] :: later) = (.error e, s') := by
  have begins := next_begins s.pending
  obtain ⟨s₁, htake, hdrop, flowing₁⟩ := take_flowing fieldLength flowing
  rw [h] at begins
  cases begins with
  | headless short =>
    refine ⟨later, ?_⟩
    simp only [read, take_ending flowing short, Nat.ne_of_lt short, ne_eq, not_false_eq_true,
      if_true]
  | malformed enough decoded =>
    have full : (s.pending.take fieldLength).length = fieldLength := List.length_take_of_le enough
    refine ⟨s₁ ++ .piece [] :: later, ?_⟩
    simp only [read, take_append htake full, full, decoded, ne_eq, not_true_eq_false, if_false]
  | @cut length enough decoded short =>
    have full : (s.pending.take fieldLength).length = fieldLength := List.length_take_of_le enough
    rw [← hdrop] at short ⊢
    refine ⟨later, ?_⟩
    simp only [read, take_append htake full, full, decoded, take_ending flowing₁ short,
      Nat.ne_of_lt short, ne_eq, not_true_eq_false, not_false_eq_true, if_false, if_true]

theorem readAll_ending (flowing : s.Flowing) :
    readAll (s ++ .piece [] :: later) = split s.pending :=
  readAll_tail (g := id) (fun _ _ flowing h => read_ending flowing h) flowing

theorem readAll_failing (f : ReadFailure) (flowing : s.Flowing) :
    readAll (s ++ .failure f :: later) =
      ((split s.pending).1, (split s.pending).2.atFailure f) :=
  readAll_tail (fun _ _ flowing h => read_failing flowing h) flowing

theorem readAll_closed (bs : Bytes) : readAll (.closed bs) = split bs := by
  have ends (s : Source) (e : Error) (flowing : s.Flowing) (h : next s.pending = .error e) :
      ∃ s', read (s ++ []) = (.error (id e), s') := by
    rw [List.append_nil]
    exact read_ended flowing h
  have h := readAll_tail ends (flowing_closed bs)
  rwa [List.append_nil, pending_closed] at h

end

theorem split_ends (bs : Bytes) :
    (∃ field, (split bs).2 = .invalidLength field) ∨
      ∃ expected read, (split bs).2 = .unexpectedEof expected read := by
  obtain ⟨rest, -, ended⟩ := split_parts bs
  have begins := next_begins rest
  rw [ended] at begins
  generalize (split bs).2 = e at begins
  cases begins with
  | headless => exact .inr ⟨_, _, rfl⟩
  | malformed => exact .inl ⟨_, rfl⟩
  | cut => exact .inr ⟨_, _, rfl⟩

section

variable {after : Duration} {gs : List Glance}

theorem readAll_overdue (early : ∀ g ∈ gs, g.elapsed < after) (flows : ∀ g ∈ gs, g.look.Flows)
    {late : Glance} (overdue : after ≤ late.elapsed) (later : List Glance) :
    readAll (.before after (gs ++ late :: later)) =
      ((split (seen gs)).1, (split (seen gs)).2.atFailure (.expired after)) := by
  obtain ⟨flowing, pending⟩ := Source.before_flowing early flows
  rw [Source.before_append, Source.before_late overdue, readAll_failing _ flowing, pending]

theorem seen_closed (bs : Bytes) : seen ((Source.closed bs).map (⟨0, .ready ·⟩)) = bs := by
  unfold Source.closed
  split
  · rename_i none
    exact none.symm
  · exact List.append_nil bs

theorem readAll_untilDeadline (positive : 0 < after) (bs : Bytes) :
    readAll (.untilDeadline bs after) =
      ((split bs).1, (split bs).2.atFailure (.expired after)) := by
  have early : ∀ g ∈ (Source.closed bs).map (fun e => (⟨0, .ready e⟩ : Glance)),
      g.elapsed < after := by
    intro g hg
    obtain ⟨e, -, rfl⟩ := List.mem_map.mp hg
    exact positive
  have flows : ∀ g ∈ (Source.closed bs).map (fun e => (⟨0, .ready e⟩ : Glance)),
      g.look.Flows := by
    intro g hg
    obtain ⟨e, he, rfl⟩ := List.mem_map.mp hg
    exact flowing_closed bs e he
  have overdue : after ≤ (⟨after, .silent⟩ : Glance).elapsed := Nat.le_refl after
  have read := readAll_overdue early flows overdue []
  rwa [seen_closed, ← Source.untilDeadline_eq_before bs positive] at read

end

section

variable {s s' : Source}

theorem failure_of_take {n : Nat} {r : Except ReadFailure Bytes} (h : s.take n = (r, s'))
    {f : ReadFailure} (mem : r = .error f ∨ .failure f ∈ s') : .failure f ∈ s := by
  fun_induction Source.take n s generalizing r s' with
  | case1 | case2 =>
    cases h
    exact mem.resolve_left (by simp)
  | case3 _ _ _ ih => exact List.mem_cons_of_mem _ (ih h mem)
  | case4 =>
    cases h
    rcases mem with same | mem
    · cases same
      exact List.mem_cons_self
    · exact List.mem_cons_of_mem _ mem
  | case5 =>
    cases h
    exact List.mem_cons_of_mem _ (mem.resolve_left (by simp))
  | case6 =>
    cases h
    rcases List.mem_cons.mp (mem.resolve_left (by simp)) with same | mem
    · cases same
    · exact List.mem_cons_of_mem _ mem
  | case7 _ _ _ _ _ _ _ _ hrec ih =>
    cases h
    exact List.mem_cons_of_mem _ (ih hrec (.inr (mem.resolve_left (by simp))))
  | case8 _ _ _ _ _ _ _ _ hrec ih =>
    cases h
    exact List.mem_cons_of_mem _ (ih hrec mem)

theorem decodeLength_ne_timeout (field : Bytes) (d : Duration) :
    decodeLength field ≠ .error (.timeout d) := by
  unfold decodeLength
  split <;> nofun

theorem failure_of_read {r : Except Error Bytes} (h : read s = (r, s')) {f : ReadFailure}
    (mem : (∃ d, r = .error (.timeout d) ∧ f = .expired d) ∨ .failure f ∈ s') :
    .failure f ∈ s := by
  have reported {g : ReadFailure} (h : r = .error (.ofFailure g)) :
      (Except.error g : Except ReadFailure Bytes) = .error f ∨ .failure f ∈ s' := by
    rcases mem with ⟨d, timeout, rfl⟩ | mem
    · rw [timeout, Except.error.injEq] at h
      cases g <;> cases h
      exact .inl rfl
    · exact .inr mem
  unfold read at h
  split at h
  · rename_i g s₁ hg
    cases h
    exact failure_of_take hg (reported rfl)
  · rename_i field s₁ hfield
    refine failure_of_take hfield (.inr ?_)
    split at h
    · cases h
      exact mem.resolve_left (by simp)
    · split at h
      · rename_i e hd
        cases h
        refine mem.resolve_left ?_
        rintro ⟨d, same, -⟩
        cases same
        exact decodeLength_ne_timeout field d hd
      · split at h
        · rename_i g s₂ hg
          cases h
          exact failure_of_take hg (reported rfl)
        · rename_i payload s₂ hpayload
          refine failure_of_take hpayload (.inr ?_)
          split at h <;> cases h <;> exact mem.resolve_left (by simp)

/-- Reading reports a time-out only if the reader's own deadline has passed. -/
theorem expired_of_readAll {d : Duration} (h : (readAll s).2 = .timeout d) :
    .failure (.expired d) ∈ s := by
  fun_induction readAll s with
  | case1 s e s' hr =>
    cases h
    exact failure_of_read hr (.inl ⟨d, rfl, rfl⟩)
  | case2 s payload s' hr ih => exact failure_of_read hr (.inr (ih h))

theorem failure_before {after : Duration} {gs : List Glance} {f : ReadFailure}
    (mem : .failure f ∈ Source.before after gs) :
    (f = .expired after ∧ ∃ g ∈ gs, after ≤ g.elapsed) ∨ (∃ cause, f = .failed cause) ∨
      ∃ g ∈ gs, g.look = .ready (.failure f) := by
  induction gs with
  | nil => cases mem
  | cons g gs ih =>
    have later (mem : .failure f ∈ Source.before after gs) :
        (f = .expired after ∧ ∃ g' ∈ g :: gs, after ≤ g'.elapsed) ∨
          (∃ cause, f = .failed cause) ∨ ∃ g' ∈ g :: gs, g'.look = .ready (.failure f) := by
      rcases ih mem with ⟨rfl, g', hg, late⟩ | failed | ⟨g', hg, own⟩
      · exact .inl ⟨rfl, g', List.mem_cons_of_mem g hg, late⟩
      · exact .inr (.inl failed)
      · exact .inr (.inr ⟨g', List.mem_cons_of_mem g hg, own⟩)
    rw [Source.before] at mem
    split at mem
    · rename_i late
      rcases List.mem_cons.mp mem with same | mem
      · cases same
        exact .inl ⟨rfl, g, List.mem_cons_self, late⟩
      · exact later mem
    · split at mem
      · exact later mem
      · exact later mem
      · rename_i cause _
        rcases List.mem_cons.mp mem with same | mem
        · cases same
          exact .inr (.inl ⟨cause, rfl⟩)
        · exact later mem
      · rename_i event hl
        rcases List.mem_cons.mp mem with rfl | mem
        · exact .inr (.inr ⟨g, List.mem_cons_self, hl⟩)
        · exact later mem

end

/-- A reader with a deadline that sees all bytes in time gets their frames. When it sees the stream
end it reports what any reader of the bytes does. When nothing comes until its time is over it
reports the same malformed field, or else, where a reader of the bytes finds their end, that the
time-out has passed. A failure of the stream itself is reported as such there, also if it says that
it timed out: reading reports a time-out only of the reader's own deadline, once that has passed. -/
theorem deadline_agrees {after : Duration} {gs : List Glance}
    (early : ∀ g ∈ gs, g.elapsed < after) (flows : ∀ g ∈ gs, g.look.Flows) :
    let plain := readAll (.closed (seen gs))
    (∀ elapsed < after, ∀ later,
      readAll (.before after (gs ++ ⟨elapsed, .ready (.piece [])⟩ :: later)) = plain) ∧
    (((∃ field, plain.2 = .invalidLength field) ∧
        ∀ late later, after ≤ late.elapsed →
          readAll (.before after (gs ++ late :: later)) = plain) ∨
      ((∃ expected read, plain.2 = .unexpectedEof expected read) ∧
        (∀ late later, after ≤ late.elapsed →
          readAll (.before after (gs ++ late :: later)) = (plain.1, .timeout after)) ∧
        ∀ elapsed < after, ∀ cause later,
          readAll (.before after (gs ++ ⟨elapsed, .ready (.failure (.timedOut cause))⟩ :: later)) =
            (plain.1, .io cause))) ∧
    (0 < after → ∀ late later, after ≤ late.elapsed →
      readAll (.untilDeadline (seen gs) after) =
        readAll (.before after (gs ++ late :: later))) ∧
    (∀ (s : Source) (d : Duration), (readAll s).2 = .timeout d → .failure (.expired d) ∈ s) ∧
    ∀ (glances : List Glance) (d : Duration), (readAll (.before after glances)).2 = .timeout d →
      (d = after ∧ ∃ g ∈ glances, after ≤ g.elapsed) ∨
        ∃ g ∈ glances, g.look = .ready (.failure (.expired d)) := by
  intro plain
  have whole : plain = split (seen gs) := readAll_closed (seen gs)
  obtain ⟨flowing, pending⟩ := Source.before_flowing early flows
  have overdue (late : Glance) (later : List Glance) (h : after ≤ late.elapsed) :
      readAll (.before after (gs ++ late :: later)) =
        (plain.1, plain.2.atFailure (.expired after)) :=
    whole ▸ readAll_overdue early flows h later
  refine ⟨?_, ?_, ?_, fun s d h => expired_of_readAll h, ?_⟩
  · intro elapsed h later
    rw [Source.before_append, Source.before_early h, readAll_ending flowing, pending, whole]
  · have ends := split_ends (seen gs)
    rw [← whole] at ends
    rcases ends with ⟨field, malformed⟩ | ⟨expected, read, ended⟩
    · refine .inl ⟨⟨field, malformed⟩, fun late later h => ?_⟩
      have kept : plain.2.atFailure (.expired after) = plain.2 := by
        rw [malformed]
        rfl
      rw [overdue late later h, kept]
    · refine .inr ⟨⟨expected, read, ended⟩, fun late later h => ?_, fun elapsed h cause later => ?_⟩
      · rw [overdue late later h, ended]
        rfl
      · rw [Source.before_append, Source.before_early h, readAll_failing _ flowing, pending,
          ← whole, ended]
        rfl
  · intro positive late later h
    rw [overdue late later h, readAll_untilDeadline positive, ← whole]
  · intro glances d h
    rcases failure_before (expired_of_readAll h) with ⟨same, late⟩ | ⟨_, same⟩ | own
    · cases same
      exact .inl ⟨rfl, late⟩
    · cases same
    · exact .inr own

def hurried : List Glance :=
  [⟨0, .ready (.piece [48, 48, 48])⟩, ⟨1, .silent⟩, ⟨5, .interrupted⟩,
    ⟨5, .ready (.piece [48, 48, 48, 48, 48, 48, 50, 111])⟩, ⟨6, .ready .interrupted⟩,
    ⟨29, .ready (.piece [107, 48, 48, 48, 48, 48, 48, 48, 48, 48, 51])⟩]

theorem hurried_read :
    let frames : List Bytes := [[111, 107]]
    readAll (.before 30 (hurried ++ [⟨29, .ready (.piece [])⟩])) = (frames, .unexpectedEof 3 0) ∧
    readAll (.before 30 (hurried ++ [⟨30, .silent⟩])) = (frames, .timeout 30) ∧
    readAll (.before 30 (hurried ++ [⟨29, .ready (.failure (.timedOut (.other "own")))⟩])) =
      (frames, .io (.other "own")) ∧
    readAll (.untilDeadline (seen hurried) 30) = (frames, .timeout 30) := by
  have first :
      next (seen hurried) = .ok ([111, 107], [48, 48, 48, 48, 48, 48, 48, 48, 48, 51]) := by
    decide
  have second : next [48, 48, 48, 48, 48, 48, 48, 48, 48, 51] = .error (.unexpectedEof 3 0) := by
    decide
  have plain : readAll (.closed (seen hurried)) = ([[111, 107]], .unexpectedEof 3 0) := by
    rw [readAll_closed, split_ok first, split_error second]
  have early : ∀ g ∈ hurried, g.elapsed < 30 := by decide
  have flows : ∀ g ∈ hurried, g.look.Flows := by simp [hurried, Look.Flows, ReadEvent.Flows]
  obtain ⟨ended, broken, opened, -, -⟩ := deadline_agrees early flows
  rw [plain] at ended broken
  rcases broken with ⟨⟨_, other⟩, -⟩ | ⟨-, overdue, failed⟩
  · cases other
  · refine ⟨ended 29 (by decide) [], overdue ⟨30, .silent⟩ [] (by decide),
      failed 29 (by decide) _ [], ?_⟩
    rw [opened (by decide) ⟨30, .silent⟩ [] (by decide)]
    exact overdue ⟨30, .silent⟩ [] (by decide)

end SemanticHighlight.Frame
