import Inventory.Json.Reader

/-! The tokens of a tree as written. The reader puts exactly these together again, whatever brackets
are open around them. -/

namespace Inventory.Json

namespace Written

mutual

def tokens : Written → List Token
  | .null => [.null]
  | .bool b => [.bool b]
  | .number n => [.number n]
  | .text content => [.text content]
  | .array items => .arrayStart :: itemTokens items
  | .object members => .objectStart :: memberTokens members

def itemTokens : List Written → List Token
  | [] => [.arrayEnd]
  | w :: rest => tokens w ++ moreItemTokens rest

def moreItemTokens : List Written → List Token
  | [] => [.arrayEnd]
  | w :: rest => .comma :: (tokens w ++ moreItemTokens rest)

def memberTokens : List (Option String × Written) → List Token
  | [] => [.objectEnd]
  | (key, w) :: rest => .text key :: .colon :: (tokens w ++ moreMemberTokens rest)

def moreMemberTokens : List (Option String × Written) → List Token
  | [] => [.objectEnd]
  | (key, w) :: rest => .comma :: .text key :: .colon :: (tokens w ++ moreMemberTokens rest)

end

theorem exists_first_token (w : Written) :
    ∃ token rest, w.tokens = token :: rest ∧ token ≠ .arrayEnd := by
  cases w with
  | null => exact ⟨.null, [], by rw [tokens], nofun⟩
  | bool b => exact ⟨.bool b, [], by rw [tokens], nofun⟩
  | number n => exact ⟨.number n, [], by rw [tokens], nofun⟩
  | text content => exact ⟨.text content, [], by rw [tokens], nofun⟩
  | array items => exact ⟨.arrayStart, itemTokens items, by rw [tokens], nofun⟩
  | object members => exact ⟨.objectStart, memberTokens members, by rw [tokens], nofun⟩

theorem moreItemTokens_append (items : List Written) (w : Written) :
    moreItemTokens (items ++ [w]) =
      .comma :: (items.flatMap (fun v => v.tokens ++ [.comma]) ++ (w.tokens ++ [.arrayEnd])) := by
  induction items with
  | nil => simp [moreItemTokens]
  | cons v rest ih => simp [moreItemTokens, ih]

theorem itemTokens_append (items : List Written) (w : Written) :
    itemTokens (items ++ [w]) =
      items.flatMap (fun v => v.tokens ++ [.comma]) ++ (w.tokens ++ [.arrayEnd]) := by
  cases items with
  | nil => simp [itemTokens, moreItemTokens]
  | cons v rest => simp [itemTokens, moreItemTokens_append]

def memberStart (member : Option String × Written) : List Token :=
  .text member.1 :: .colon :: member.2.tokens

theorem moreMemberTokens_append (members : List (Option String × Written)) (key : Option String)
    (w : Written) : moreMemberTokens (members ++ [(key, w)]) =
      .comma :: (members.flatMap (fun m => memberStart m ++ [.comma]) ++
        (memberStart (key, w) ++ [.objectEnd])) := by
  induction members with
  | nil => simp [moreMemberTokens, memberStart]
  | cons m rest ih =>
    obtain ⟨k, v⟩ := m
    simp [moreMemberTokens, ih, memberStart]

theorem memberTokens_append (members : List (Option String × Written)) (key : Option String)
    (w : Written) : memberTokens (members ++ [(key, w)]) =
      members.flatMap (fun m => memberStart m ++ [.comma]) ++
        (memberStart (key, w) ++ [.objectEnd]) := by
  cases members with
  | nil => simp [memberTokens, moreMemberTokens, memberStart]
  | cons m rest =>
    obtain ⟨k, v⟩ := m
    simp [memberTokens, moreMemberTokens_append, memberStart]

end Written

namespace Reading

theorem run?_cons {r : Reading} {token : Token} (next : Reading) (h : r.step? token = some next)
    (ts : List Token) : r.run? (token :: ts) = next.run? ts := by
  rw [run?, h]

theorem step?_value (levels : List Level) (token : Token) :
    step? ⟨levels, .value⟩ token = beginValue? levels token := by
  simp [step?]

theorem step?_firstItem (levels : List Level) {token : Token} (h : token ≠ .arrayEnd) :
    step? ⟨levels, .firstItem⟩ token = beginValue? levels token := by
  cases token <;> first | exact absurd rfl h | simp [step?]

/-- Reads one token where a value begins. -/
theorem run?_begin {levels : List Level} {token : Token} {next : Reading}
    (h : beginValue? levels token = some next) (ts : List Token) :
    run? ⟨levels, .value⟩ (token :: ts) = next.run? ts :=
  run?_cons next ((step?_value levels token).trans h) ts

theorem run?_firstItem (levels : List Level) (w : Written) (ts : List Token) :
    run? ⟨levels, .firstItem⟩ (w.tokens ++ ts) = run? ⟨levels, .value⟩ (w.tokens ++ ts) := by
  obtain ⟨token, rest, htokens, hend⟩ := w.exists_first_token
  rw [htokens, List.cons_append, run?, run?, step?_firstItem levels hend, step?_value]

theorem run?_member (levels : List Level) (members : List (Option String × Written))
    (key : Option String) (ts : List Token) :
    run? ⟨.object members :: levels, .key⟩ (.text key :: .colon :: ts) =
      run? ⟨.member members key :: levels, .value⟩ ts := by
  rw [run?_cons ⟨.object members :: levels, .colon key⟩ (by simp [step?]),
    run?_cons ⟨.member members key :: levels, .value⟩ (by simp [step?])]

theorem run?_firstMember (levels : List Level) (key : Option String) (ts : List Token) :
    run? ⟨.object [] :: levels, .firstKey⟩ (.text key :: .colon :: ts) =
      run? ⟨.member [] key :: levels, .value⟩ ts := by
  rw [run?_cons ⟨.object [] :: levels, .colon key⟩ (by simp [step?]),
    run?_cons ⟨.member [] key :: levels, .value⟩ (by simp [step?])]

mutual

theorem run?_tokens (w : Written) (levels : List Level) (ts : List Token) :
    run? ⟨levels, .value⟩ (w.tokens ++ ts) = run? ⟨levels, .ended w⟩ ts := by
  match w with
  | .null =>
    rw [Written.tokens]
    exact run?_begin rfl ts
  | .bool b =>
    rw [Written.tokens]
    exact run?_begin rfl ts
  | .number n =>
    rw [Written.tokens]
    exact run?_begin rfl ts
  | .text content =>
    rw [Written.tokens]
    exact run?_begin rfl ts
  | .array [] =>
    rw [Written.tokens, Written.itemTokens, List.cons_append, run?_begin rfl]
    exact run?_cons _ (by simp [step?]) ts
  | .array (w :: rest) =>
    rw [Written.tokens, Written.itemTokens, List.cons_append, List.append_assoc, run?_begin rfl,
      run?_firstItem, run?_tokens w, run?_moreItemTokens rest]
    rfl
  | .object [] =>
    rw [Written.tokens, Written.memberTokens, List.cons_append, run?_begin rfl]
    exact run?_cons _ (by simp [step?]) ts
  | .object ((key, w) :: rest) =>
    rw [Written.tokens, Written.memberTokens, List.cons_append, List.cons_append, List.cons_append,
      List.append_assoc, run?_begin rfl, run?_firstMember, run?_tokens w,
      run?_moreMemberTokens rest]
    rfl

theorem run?_moreItemTokens (rest done : List Written) (w : Written) (levels : List Level)
    (ts : List Token) :
    run? ⟨.array done :: levels, .ended w⟩ (Written.moreItemTokens rest ++ ts) =
      run? ⟨levels, .ended (.array ((w :: done).reverse ++ rest))⟩ ts := by
  match rest with
  | [] =>
    rw [Written.moreItemTokens, List.append_nil]
    exact run?_cons _ (by simp [step?]) ts
  | v :: rest =>
    rw [Written.moreItemTokens, List.cons_append, List.append_assoc,
      run?_cons ⟨.array (w :: done) :: levels, .value⟩ (by simp [step?]),
      run?_tokens v, run?_moreItemTokens rest, List.reverse_cons, List.append_assoc]
    rfl

theorem run?_moreMemberTokens (rest done : List (Option String × Written)) (key : Option String)
    (w : Written) (levels : List Level) (ts : List Token) :
    run? ⟨.member done key :: levels, .ended w⟩ (Written.moreMemberTokens rest ++ ts) =
      run? ⟨levels, .ended (.object (((key, w) :: done).reverse ++ rest))⟩ ts := by
  match rest with
  | [] =>
    rw [Written.moreMemberTokens, List.append_nil]
    exact run?_cons _ (by simp [step?]) ts
  | (k, v) :: rest =>
    rw [Written.moreMemberTokens, List.cons_append, List.cons_append, List.cons_append,
      List.append_assoc,
      run?_cons ⟨.object ((key, w) :: done) :: levels, .key⟩ (by simp [step?]),
      run?_member, run?_tokens v, run?_moreMemberTokens rest, List.reverse_cons, List.append_assoc]
    rfl

end

/-- The tokens read for what stands complete inside open brackets, and for the brackets. -/
def levelTokens : List Level → List Token
  | [] => []
  | .array items :: levels =>
    levelTokens levels ++ .arrayStart :: items.reverse.flatMap fun w => w.tokens ++ [.comma]
  | .object members :: levels =>
    levelTokens levels ++
      .objectStart :: members.reverse.flatMap fun m => Written.memberStart m ++ [.comma]
  | .member members key :: levels =>
    levelTokens levels ++
      .objectStart :: (members.reverse.flatMap fun m => Written.memberStart m ++ [.comma]) ++
      [.text key, .colon]

/-- All tokens read so far. -/
def consumed (r : Reading) : List Token :=
  levelTokens r.levels ++
    match r.place with
    | .colon key => [.text key]
    | .ended w => w.tokens
    | _ => []

theorem consumed_beginValue {levels : List Level} {token : Token} {next : Reading}
    (h : beginValue? levels token = some next) : next.consumed = levelTokens levels ++ [token] := by
  rw [beginValue?.eq_def] at h
  split at h
  case h_7 => cases h
  all_goals
    obtain rfl := Option.some.inj h
    simp [consumed, levelTokens, Written.tokens]

/-- Reading a token adds that token to what was read. -/
theorem consumed_step {r next : Reading} {token : Token} (h : r.step? token = some next) :
    next.consumed = r.consumed ++ [token] := by
  rw [step?.eq_def] at h
  split at h
  case h_2 => rw [consumed_beginValue h, consumed, List.append_nil]
  case h_3 => rw [consumed_beginValue h, consumed, List.append_nil]
  all_goals cases h
  all_goals
    simp [consumed, levelTokens, Written.tokens, Written.itemTokens, Written.memberTokens,
      Written.memberStart, Written.itemTokens_append, Written.memberTokens_append]

theorem consumed_run {r : Reading} {ts : List Token} {w : Written} (h : r.run? ts = some w) :
    r.consumed ++ ts = w.tokens := by
  induction ts generalizing r with
  | nil =>
    rw [run?.eq_def] at h
    simp only at h
    split at h
    · obtain rfl := Option.some.inj h
      simp [consumed, levelTokens]
    · cases h
  | cons token rest ih =>
    rw [run?] at h
    split at h
    · rename_i next hstep
      have hrest := ih h
      rwa [consumed_step hstep, List.append_assoc] at hrest
    · cases h

/-- From the start the tokens of a tree make that tree, and no others do. -/
theorem run?_eq_some {ts : List Token} {w : Written} : atStart.run? ts = some w ↔ ts = w.tokens := by
  constructor
  · intro h
    exact consumed_run h
  · rintro rfl
    have hrun := run?_tokens w [] []
    rw [List.append_nil] at hrun
    exact hrun

end Reading

end Inventory.Json
