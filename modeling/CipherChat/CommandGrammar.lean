import CipherChat.CommandParser

/-!
# The grammar of the commands

A command line is white space, a verb, and what the verb takes.  `Spells` lists the
pieces of such a line for each command.  The pieces determine the line and the line
determines the pieces, and `parse_command` returns exactly the command they spell.
-/

namespace CipherChat

theorem isSpace_of_head?_dropWhile {text : Bytes} {b : UInt8}
    (h : (text.dropWhile (!isSpace ·)).head? = some b) : isSpace b = true := by
  have hnot := List.head?_dropWhile_not (!isSpace ·) text
  rw [h] at hnot
  simpa using hnot

theorem skipWhitespace_append {text : Bytes} (space : Bytes) (htext : skipWhitespace text ≠ []) :
    skipWhitespace (text ++ space) = skipWhitespace text ++ space := by
  rw [skipWhitespace, List.dropWhile_append]
  rw [skipWhitespace] at htext
  rw [if_neg (by simpa using htext)]
  rfl

theorem token_append {space : Bytes} (hspace : ∀ b ∈ space, isSpace b = true) (text : Bytes) :
    token (text ++ space) = token text := by
  rw [token, List.takeWhile_append]
  split
  · next hall =>
    have hnone : space.takeWhile (!isSpace ·) = [] := by
      cases space with
      | nil => rfl
      | cons b rest => rw [List.takeWhile_cons_of_neg (by simp [hspace b])]
    rw [hnone, List.append_nil, token]
    exact (List.IsPrefix.eq_of_length (List.takeWhile_prefix _) hall).symm
  · rfl

theorem nextToken_append {text : Bytes} (space : Bytes) (htext : nextToken text ≠ []) :
    nextToken (text ++ space) = nextToken text ++ space := by
  have hrest : text.dropWhile (!isSpace ·) ≠ [] := by
    intro hnil
    rw [nextToken, hnil] at htext
    exact htext rfl
  have hdrop : (text ++ space).dropWhile (!isSpace ·) = text.dropWhile (!isSpace ·) ++ space := by
    rw [List.dropWhile_append, if_neg (by simpa using hrest)]
  rw [nextToken, hdrop, List.drop_append_of_le_length (List.length_pos_iff.mpr hrest)]
  exact skipWhitespace_append space htext

/-- A line is its parsed part and white space. -/
theorem removeLineEnding_append (line : Bytes) :
    ∃ space, line = removeLineEnding line ++ space ∧ ∀ b ∈ space, isSpace b = true := by
  refine ⟨_, (List.rdropWhile_append_rtakeWhile (p := fun b => b == 10 || b == 13)
    (l := line)).symm, fun b hb => ?_⟩
  have hb := List.mem_rtakeWhile_imp hb
  simp only [Bool.or_eq_true, beq_iff_eq] at hb
  rcases hb with rfl | rfl
  · rfl
  · rfl

/-- `parse_command` sees the verb and the recipient that the line itself shows. -/
theorem parseCommand_tokens {line username message : Bytes}
    (h : parseCommand line = .privateMessage username message) :
    token (skipWhitespace line) = ascii "/msg" ∧
      username = token (nextToken (skipWhitespace line)) := by
  obtain ⟨hverb, huser, -, hargs, -, -⟩ := parseCommand_privateMessage h
  obtain ⟨space, hline, hspace⟩ := removeLineEnding_append line
  have htext : skipWhitespace (removeLineEnding line) ≠ [] := by
    intro hnil
    rw [hnil] at hargs
    exact hargs rfl
  rw [hline, skipWhitespace_append space htext, token_append hspace, nextToken_append space hargs,
    token_append hspace]
  exact ⟨hverb, huser⟩

/-- White space only. -/
def Blank (bs : Bytes) : Prop := ∀ b ∈ bs, isSpace b = true

def Solid (bs : Bytes) : Prop := ∀ b ∈ bs, isSpace b = false

def Flush (bs : Bytes) : Prop := ∀ b ∈ bs.head?, isSpace b = false

def Apart (bs : Bytes) : Prop := ∀ b ∈ bs.head?, isSpace b = true

def Gap (bs : Bytes) : Prop := Blank bs ∧ bs ≠ []

def Name (bs : Bytes) : Prop := Solid bs ∧ bs ≠ [] ∧ bs.length < usernameSize

def Body (bs : Bytes) : Prop := Flush bs ∧ bs ≠ []

def verbs : List Bytes :=
  [ascii "/list", ascii "/help", ascii "/quit", ascii "/broadcast", ascii "/msg", ascii "/file"]

/-- The pieces of a line, and the command that the line spells. -/
inductive Spells : List Bytes → ParsedCommand → Prop
  | privateMessage {w g u g' m : Bytes} (hw : Blank w) (hg : Gap g) (hu : Name u) (hg' : Gap g')
      (hm : Body m) : Spells [w, ascii "/msg", g, u, g', m] (.privateMessage u m)
  | fileTransfer {w g u g' p e : Bytes} (hw : Blank w) (hg : Gap g) (hu : Name u) (hg' : Gap g')
      (hp : Body p) (hend : Flush p.reverse) (he : Blank e) :
      Spells [w, ascii "/file", g, u, g', p, e] (.fileTransfer u p)
  | broadcastMessage {w g m : Bytes} (hw : Blank w) (hg : Gap g) (hm : Body m) :
      Spells [w, ascii "/broadcast", g, m] (.broadcastMessage m)
  | listUsers {w e : Bytes} (hw : Blank w) (he : Blank e) : Spells [w, ascii "/list", e] .listUsers
  | help {w e : Bytes} (hw : Blank w) (he : Blank e) : Spells [w, ascii "/help", e] .help
  | quit {w e : Bytes} (hw : Blank w) (he : Blank e) : Spells [w, ascii "/quit", e] .quit

def FirstToken (text v : Bytes) : Prop :=
  ∃ w rest, Blank w ∧ Solid v ∧ Apart rest ∧ text = w ++ (v ++ rest)

theorem Blank.append {a b : Bytes} (ha : Blank a) (hb : Blank b) : Blank (a ++ b) := by
  intro c hc
  exact (List.mem_append.mp hc).elim (ha c) (hb c)

theorem Blank.apart {bs : Bytes} (h : Blank bs) : Apart bs :=
  fun b hb => h b (List.mem_of_mem_head? hb)

theorem Solid.flush {bs : Bytes} (h : Solid bs) : Flush bs :=
  fun b hb => h b (List.mem_of_mem_head? hb)

theorem Flush.append {a b : Bytes} (ha : Flush a) (h0 : a ≠ []) : Flush (a ++ b) := by
  cases a with
  | nil => exact absurd rfl h0
  | cons c a => exact ha

theorem Gap.apart {g : Bytes} (h : Gap g) (rest : Bytes) : Apart (g ++ rest) := by
  cases g with
  | nil => exact absurd rfl h.2
  | cons b g => exact fun c hc => h.1 c (by simpa using .inl (Option.some.inj hc).symm)

theorem eq_nil_of_flush_apart {bs : Bytes} (hf : Flush bs) (ha : Apart bs) : bs = [] := by
  cases bs with
  | nil => rfl
  | cons b bs =>
    have h1 : isSpace b = false := hf b rfl
    have h2 : isSpace b = true := ha b rfl
    rw [h1] at h2
    cases h2

theorem skipWhitespace_flush {x : Bytes} (hx : Flush x) : skipWhitespace x = x := by
  cases x with
  | nil => rfl
  | cons b x => rw [skipWhitespace, List.dropWhile_cons_of_neg (by simp [hx b rfl])]

theorem skipWhitespace_blank_append {w : Bytes} (hw : Blank w) {x : Bytes} (hx : Flush x) :
    skipWhitespace (w ++ x) = x := by
  rw [skipWhitespace, List.dropWhile_append_of_pos hw]
  exact skipWhitespace_flush hx

theorem skipWhitespace_blank {w : Bytes} (hw : Blank w) : skipWhitespace w = [] := by
  have h := skipWhitespace_blank_append hw (x := []) (by simp [Flush])
  rwa [List.append_nil] at h

theorem flush_skipWhitespace (text : Bytes) : Flush (skipWhitespace text) := by
  intro b hb
  have h := List.head?_dropWhile_not isSpace text
  rw [skipWhitespace] at hb
  rw [hb] at h
  simpa using h

theorem solid_token (text : Bytes) : Solid (token text) := by
  intro b hb
  simpa using List.mem_takeWhile_imp hb

theorem dropWhile_apart {rest : Bytes} (hr : Apart rest) : rest.dropWhile (!isSpace ·) = rest := by
  cases rest with
  | nil => rfl
  | cons b rest => rw [List.dropWhile_cons_of_neg (by simp [hr b rfl])]

theorem token_solid_append {u : Bytes} (hu : Solid u) {rest : Bytes} (hr : Apart rest) :
    token (u ++ rest) = u := by
  have hnone : rest.takeWhile (!isSpace ·) = [] := by
    cases rest with
    | nil => rfl
    | cons b rest => rw [List.takeWhile_cons_of_neg (by simp [hr b rfl])]
  rw [token, List.takeWhile_append_of_pos (by simpa [Solid] using hu), hnone, List.append_nil]

theorem nextToken_solid_append {u : Bytes} (hu : Solid u) {rest : Bytes} (hr : Apart rest) :
    nextToken (u ++ rest) = skipWhitespace rest := by
  rw [nextToken, List.dropWhile_append_of_pos (by simpa [Solid] using hu), dropWhile_apart hr]
  cases rest with
  | nil => rfl
  | cons b rest =>
    rw [List.drop_one, List.tail_cons, skipWhitespace, skipWhitespace,
      List.dropWhile_cons_of_pos (hr b rfl)]

theorem blank_skipWhitespace (text : Bytes) :
    ∃ w, Blank w ∧ text = w ++ skipWhitespace text :=
  ⟨text.takeWhile isSpace, fun _ hb => List.mem_takeWhile_imp hb,
    List.takeWhile_append_dropWhile.symm⟩

theorem token_gap_nextToken (text : Bytes) :
    ∃ g, Blank g ∧ text = token text ++ (g ++ nextToken text) ∧ (nextToken text ≠ [] → g ≠ []) := by
  have hsplit : text = token text ++ text.dropWhile (!isSpace ·) :=
    List.takeWhile_append_dropWhile.symm
  have happart : Apart (text.dropWhile (!isSpace ·)) := fun b hb => isSpace_of_head?_dropWhile hb
  have hnext := nextToken_solid_append (solid_token text) happart
  rw [← hsplit] at hnext
  obtain ⟨g, hg, hrest⟩ := blank_skipWhitespace (text.dropWhile (!isSpace ·))
  rw [← hnext] at hrest
  refine ⟨g, hg, hrest ▸ hsplit, fun hne h0 => hne ?_⟩
  rw [h0, List.nil_append] at hrest
  exact eq_nil_of_flush_apart (flush_skipWhitespace _) (hrest ▸ happart)

theorem firstToken_iff {text v : Bytes} (hv : v ≠ []) :
    FirstToken text v ↔ token (skipWhitespace text) = v := by
  constructor
  · rintro ⟨w, rest, hw, hsolid, hrest, rfl⟩
    rw [skipWhitespace_blank_append hw (hsolid.flush.append hv), token_solid_append hsolid hrest]
  · rintro rfl
    obtain ⟨w, hw, htext⟩ := blank_skipWhitespace text
    exact ⟨w, _, hw, solid_token _, fun b hb => isSpace_of_head?_dropWhile hb,
      by rw [token, List.takeWhile_append_dropWhile]; exact htext⟩

/-- `parse_command` behind the cut at the verb. -/
def parseArguments (verb arguments : Bytes) : ParsedCommand :=
  let username := token arguments
  if verb = ascii "/list" then if arguments = [] then .listUsers else .invalid
  else if verb = ascii "/help" then if arguments = [] then .help else .invalid
  else if verb = ascii "/quit" then if arguments = [] then .quit else .invalid
  else if verb = ascii "/broadcast" then
    if arguments = [] then .invalid else .broadcastMessage arguments
  else if verb = ascii "/msg" then
    if nextToken arguments = [] ∨ usernameSize ≤ username.length then .invalid
    else .privateMessage username (nextToken arguments)
  else if verb = ascii "/file" then
    if nextToken arguments = [] ∨ usernameSize ≤ username.length then .invalid
    else .fileTransfer username ((nextToken arguments).rdropWhile isSpace)
  else .unknown

theorem rdropWhile_eq_nil {text : Bytes} (h : Flush text) :
    text.rdropWhile isSpace = [] ↔ text = [] := by
  constructor
  · intro hnil
    rw [List.rdropWhile_eq_nil_iff] at hnil
    exact eq_nil_of_flush_apart h (Blank.apart hnil)
  · rintro rfl
    rfl

theorem nextToken_nil_of_rest {arguments : Bytes} (h : arguments.dropWhile (!isSpace ·) = []) :
    nextToken arguments = [] := by
  rw [nextToken, h]
  rfl

theorem parseCommand_eq (command : Bytes) :
    parseCommand command = parseArguments (token (skipWhitespace (removeLineEnding command)))
      (nextToken (skipWhitespace (removeLineEnding command))) := by
  unfold parseCommand parseArguments
  dsimp only
  generalize skipWhitespace (removeLineEnding command) = line
  rw [show line.takeWhile (!isSpace ·) = token line from rfl,
    show skipWhitespace ((line.dropWhile (!isSpace ·)).drop 1) = nextToken line from rfl]
  generalize token line = verb
  generalize nextToken line = arguments
  have hnext : skipWhitespace ((arguments.dropWhile (!isSpace ·)).drop 1) =
    nextToken arguments := rfl
  have hflush : Flush (nextToken arguments) := flush_skipWhitespace _
  rw [show arguments.takeWhile (!isSpace ·) = token arguments from rfl, hnext]
  simp only [rdropWhile_eq_nil hflush]
  by_cases hrest : arguments = [] ∨ arguments.dropWhile (!isSpace ·) = []
  · have hnil : nextToken arguments = [] := by
      rcases hrest with rfl | hrest
      · rfl
      · exact nextToken_nil_of_rest hrest
    simp only [if_pos hrest, hnil, true_or, if_true]
  · simp only [if_neg hrest]

theorem solid_verb {v : Bytes} (h : v ∈ verbs) : Solid v ∧ v ≠ [] := by
  simp only [verbs, List.mem_cons, List.not_mem_nil, or_false] at h
  rcases h with rfl | rfl | rfl | rfl | rfl | rfl <;>
    exact ⟨forall_ascii_ofList rfl, ascii_ofList_ne_nil (by simp)⟩

theorem nodup_verbs : verbs.Nodup := by
  have h : verbs = [[47, 108, 105, 115, 116], [47, 104, 101, 108, 112], [47, 113, 117, 105, 116],
      [47, 98, 114, 111, 97, 100, 99, 97, 115, 116], [47, 109, 115, 103],
      [47, 102, 105, 108, 101]] := by
    simp only [verbs]
    rw [show ascii "/list" = _ from ascii_ofList _, show ascii "/help" = _ from ascii_ofList _,
      show ascii "/quit" = _ from ascii_ofList _, show ascii "/broadcast" = _ from ascii_ofList _,
      show ascii "/msg" = _ from ascii_ofList _, show ascii "/file" = _ from ascii_ofList _]
    rfl
  rw [h]
  decide

theorem parseArguments_list (arguments : Bytes) : parseArguments (ascii "/list") arguments =
    if arguments = [] then .listUsers else .invalid := by
  unfold parseArguments
  rw [if_pos rfl]

theorem parseArguments_help (arguments : Bytes) : parseArguments (ascii "/help") arguments =
    if arguments = [] then .help else .invalid := by
  have hne := nodup_verbs
  simp only [verbs, List.nodup_cons, List.mem_cons, not_or] at hne
  unfold parseArguments
  rw [if_neg (Ne.symm hne.1.1), if_pos rfl]

theorem parseArguments_quit (arguments : Bytes) : parseArguments (ascii "/quit") arguments =
    if arguments = [] then .quit else .invalid := by
  have hne := nodup_verbs
  simp only [verbs, List.nodup_cons, List.mem_cons, not_or] at hne
  unfold parseArguments
  rw [if_neg (Ne.symm hne.1.2.1), if_neg (Ne.symm hne.2.1.1), if_pos rfl]

theorem parseArguments_broadcast (arguments : Bytes) :
    parseArguments (ascii "/broadcast") arguments =
      if arguments = [] then .invalid else .broadcastMessage arguments := by
  have hne := nodup_verbs
  simp only [verbs, List.nodup_cons, List.mem_cons, not_or] at hne
  unfold parseArguments
  rw [if_neg (Ne.symm hne.1.2.2.1), if_neg (Ne.symm hne.2.1.2.1), if_neg (Ne.symm hne.2.2.1.1),
    if_pos rfl]

theorem parseArguments_msg (arguments : Bytes) : parseArguments (ascii "/msg") arguments =
    if nextToken arguments = [] ∨ usernameSize ≤ (token arguments).length then .invalid
    else .privateMessage (token arguments) (nextToken arguments) := by
  have hne := nodup_verbs
  simp only [verbs, List.nodup_cons, List.mem_cons, not_or] at hne
  unfold parseArguments
  rw [if_neg (Ne.symm hne.1.2.2.2.1), if_neg (Ne.symm hne.2.1.2.2.1),
    if_neg (Ne.symm hne.2.2.1.2.1),
    if_neg (Ne.symm hne.2.2.2.1.1), if_pos rfl]

theorem parseArguments_file (arguments : Bytes) : parseArguments (ascii "/file") arguments =
    if nextToken arguments = [] ∨ usernameSize ≤ (token arguments).length then .invalid
    else .fileTransfer (token arguments) ((nextToken arguments).rdropWhile isSpace) := by
  have hne := nodup_verbs
  simp only [verbs, List.nodup_cons, List.mem_cons, not_or] at hne
  unfold parseArguments
  rw [if_neg (Ne.symm hne.1.2.2.2.2.1), if_neg (Ne.symm hne.2.1.2.2.2.1),
    if_neg (Ne.symm hne.2.2.1.2.2.1), if_neg (Ne.symm hne.2.2.2.1.2.1),
    if_neg (Ne.symm hne.2.2.2.2.1.1), if_pos rfl]

theorem parseArguments_unknown {verb : Bytes} (h : verb ∉ verbs) (arguments : Bytes) :
    parseArguments verb arguments = .unknown := by
  simp only [verbs, List.mem_cons, List.not_mem_nil, or_false, not_or] at h
  obtain ⟨h1, h2, h3, h4, h5, h6⟩ := h
  unfold parseArguments
  rw [if_neg h1, if_neg h2, if_neg h3, if_neg h4, if_neg h5, if_neg h6]

theorem tokens_of_gap {g u rest : Bytes} (hg : Gap g) (hu : Name u) (hr : Apart rest) :
    skipWhitespace (g ++ (u ++ rest)) = u ++ rest ∧ token (u ++ rest) = u ∧
      nextToken (u ++ rest) = skipWhitespace rest :=
  ⟨skipWhitespace_blank_append hg.1 (hu.1.flush.append hu.2.1), token_solid_append hu.1 hr,
    nextToken_solid_append hu.1 hr⟩

theorem parseCommand_of_spells {pieces : List Bytes} {c : ParsedCommand} (h : Spells pieces c)
    {command : Bytes} (ht : removeLineEnding command = pieces.flatten) :
    parseCommand command = c := by
  -- the verb, and the arguments without the white space before them
  have hline : ∀ {w v rest : Bytes}, v ∈ verbs → Blank w → Apart rest →
      removeLineEnding command = w ++ (v ++ rest) →
      parseCommand command = parseArguments v (skipWhitespace rest) := by
    intro w v rest hv hw hr ht
    obtain ⟨hsolid, hne⟩ := solid_verb hv
    rw [parseCommand_eq, ht, skipWhitespace_blank_append hw (hsolid.flush.append hne),
      token_solid_append hsolid hr, nextToken_solid_append hsolid hr]
  cases h with
  | @privateMessage w g u g' m hw hg hu hg' hm =>
    obtain ⟨hskip, htoken, hnext⟩ := tokens_of_gap hg hu (hg'.apart m)
    rw [hline (v := ascii "/msg") (by simp [verbs]) hw (hg.apart _) (by simpa using ht), hskip,
      parseArguments_msg, htoken, hnext,
      skipWhitespace_blank_append hg'.1 hm.1, if_neg (not_or.mpr ⟨hm.2, not_le.mpr hu.2.2⟩)]
  | @fileTransfer w g u g' p e hw hg hu hg' hp hend he =>
    obtain ⟨hskip, htoken, hnext⟩ := tokens_of_gap hg hu (hg'.apart (p ++ e))
    have hpath : skipWhitespace (g' ++ (p ++ e)) = p ++ e :=
      skipWhitespace_blank_append hg'.1 (hp.1.append hp.2)
    have htrim : (p ++ e).rdropWhile isSpace = p := by
      rw [List.rdropWhile, List.reverse_append,
        List.dropWhile_append_of_pos fun b hb => he b (List.mem_reverse.mp hb)]
      exact (congrArg List.reverse (skipWhitespace_flush hend)).trans (List.reverse_reverse p)
    rw [hline (v := ascii "/file") (by simp [verbs]) hw (hg.apart _) (by simpa using ht), hskip,
      parseArguments_file, htoken, hnext,
      hpath, if_neg (not_or.mpr ⟨by simp [hp.2], not_le.mpr hu.2.2⟩), htrim]
  | @broadcastMessage w g m hw hg hm =>
    rw [hline (v := ascii "/broadcast") (by simp [verbs]) hw (hg.apart _) (by simpa using ht),
      parseArguments_broadcast,
      skipWhitespace_blank_append hg.1 hm.1, if_neg hm.2]
  | @listUsers w e hw he =>
    rw [hline (v := ascii "/list") (by simp [verbs]) hw he.apart (by simpa using ht),
      parseArguments_list, skipWhitespace_blank he,
      if_pos rfl]
  | @help w e hw he =>
    rw [hline (v := ascii "/help") (by simp [verbs]) hw he.apart (by simpa using ht),
      parseArguments_help, skipWhitespace_blank he,
      if_pos rfl]
  | @quit w e hw he =>
    rw [hline (v := ascii "/quit") (by simp [verbs]) hw he.apart (by simpa using ht),
      parseArguments_quit, skipWhitespace_blank he,
      if_pos rfl]

theorem flush_nextToken (text : Bytes) : Flush (nextToken text) := flush_skipWhitespace _

theorem token_ne_nil {text : Bytes} (hf : Flush text) (h0 : text ≠ []) : token text ≠ [] := by
  intro hnil
  have hsplit : token text ++ text.dropWhile (!isSpace ·) = text := List.takeWhile_append_dropWhile
  rw [hnil, List.nil_append] at hsplit
  refine h0 (eq_nil_of_flush_apart hf fun b hb => ?_)
  rw [← hsplit] at hb
  exact isSpace_of_head?_dropWhile hb

theorem name_gap_body {arguments : Bytes} (hf : Flush arguments)
    (h : ¬(nextToken arguments = [] ∨ usernameSize ≤ (token arguments).length)) :
    ∃ g, Gap g ∧ arguments = token arguments ++ (g ++ nextToken arguments) ∧
      Name (token arguments) ∧ Body (nextToken arguments) := by
  obtain ⟨hbody, hlen⟩ := not_or.mp h
  obtain ⟨g, hg, hsplit, hgap⟩ := token_gap_nextToken arguments
  have hne : arguments ≠ [] := by
    rintro rfl
    exact hbody rfl
  exact ⟨g, ⟨hg, hgap hbody⟩, hsplit, ⟨solid_token _, token_ne_nil hf hne, not_le.mp hlen⟩,
    flush_nextToken _, hbody⟩

theorem path_blank {text : Bytes} (h : Body text) :
    ∃ e, Blank e ∧ text = text.rdropWhile isSpace ++ e ∧ Body (text.rdropWhile isSpace) ∧
      Flush (text.rdropWhile isSpace).reverse := by
  have hsplit := List.rdropWhile_append_rtakeWhile (p := isSpace) (l := text)
  have hne : text.rdropWhile isSpace ≠ [] := fun h0 => h.2 ((rdropWhile_eq_nil h.1).mp h0)
  refine ⟨text.rtakeWhile isSpace, fun _ hb => List.mem_rtakeWhile_imp hb, hsplit.symm,
    ⟨?_, hne⟩, ?_⟩
  · intro b hb
    refine h.1 b ?_
    rw [← hsplit]
    cases hcut : text.rdropWhile isSpace with
    | nil => exact absurd hcut hne
    | cons a cut =>
      rw [hcut] at hb
      exact hb
  · rw [List.rdropWhile, List.reverse_reverse]
    exact flush_skipWhitespace text.reverse

theorem spells_of_parseCommand {command : Bytes} {c : ParsedCommand}
    (h : parseCommand command = c) (hi : c ≠ .invalid) (hu : c ≠ .unknown) :
    ∃ pieces, Spells pieces c ∧ removeLineEnding command = pieces.flatten := by
  rw [parseCommand_eq] at h
  generalize removeLineEnding command = text at h ⊢
  obtain ⟨w, hw, htext⟩ := blank_skipWhitespace text
  generalize skipWhitespace text = line at h htext
  obtain ⟨g, hg, hline, hgap⟩ := token_gap_nextToken line
  rw [hline] at htext
  have hf := flush_nextToken line
  by_cases hverb : token line ∈ verbs
  -- one case for each verb
  · simp only [verbs, List.mem_cons, List.not_mem_nil, or_false] at hverb
    rcases hverb with hv | hv | hv | hv | hv | hv <;> rw [hv] at h htext
    · rw [parseArguments_list] at h
      split at h <;> subst h
      · next hnil =>
        rw [hnil, List.append_nil] at htext
        exact ⟨_, .listUsers hw hg, by simpa using htext⟩
      · exact absurd rfl hi
    · rw [parseArguments_help] at h
      split at h <;> subst h
      · next hnil =>
        rw [hnil, List.append_nil] at htext
        exact ⟨_, .help hw hg, by simpa using htext⟩
      · exact absurd rfl hi
    · rw [parseArguments_quit] at h
      split at h <;> subst h
      · next hnil =>
        rw [hnil, List.append_nil] at htext
        exact ⟨_, .quit hw hg, by simpa using htext⟩
      · exact absurd rfl hi
    · rw [parseArguments_broadcast] at h
      split at h <;> subst h
      · exact absurd rfl hi
      · next hne =>
        exact ⟨_, .broadcastMessage hw ⟨hg, hgap hne⟩ ⟨hf, hne⟩, by simpa using htext⟩
    · rw [parseArguments_msg] at h
      split at h <;> subst h
      · exact absurd rfl hi
      · next hargs =>
        obtain ⟨g', hg', hsplit, hname, hbody⟩ := name_gap_body hf hargs
        have hgap' : g ≠ [] := hgap fun h0 => hargs (.inl (by rw [h0]; rfl))
        refine ⟨_, .privateMessage hw ⟨hg, hgap'⟩ hname hg' hbody, ?_⟩
        rw [hsplit] at htext
        simpa using htext
    · rw [parseArguments_file] at h
      split at h <;> subst h
      · exact absurd rfl hi
      · next hargs =>
        obtain ⟨g', hg', hsplit, hname, hbody⟩ := name_gap_body hf hargs
        have hgap' : g ≠ [] := hgap fun h0 => hargs (.inl (by rw [h0]; rfl))
        obtain ⟨e, he, hpath, hp, hend⟩ := path_blank hbody
        refine ⟨_, .fileTransfer hw ⟨hg, hgap'⟩ hname hg' hp hend he, ?_⟩
        rw [hsplit, hpath] at htext
        simpa using htext
  · rw [parseArguments_unknown hverb] at h
    exact absurd h.symm hu

theorem blank_append_cancel {w w' x x' : Bytes} (hw : Blank w) (hw' : Blank w') (hx : Flush x)
    (hx' : Flush x') (h : w ++ x = w' ++ x') : w = w' ∧ x = x' := by
  have hrest := congrArg skipWhitespace h
  rw [skipWhitespace_blank_append hw hx, skipWhitespace_blank_append hw' hx'] at hrest
  subst hrest
  exact ⟨List.append_cancel_right h, rfl⟩

theorem verb_append_cancel {w w' v x x' : Bytes} (hw : Blank w) (hw' : Blank w') (hv : v ∈ verbs)
    (h : w ++ (v ++ x) = w' ++ (v ++ x')) : w = w' ∧ x = x' := by
  obtain ⟨hsolid, hne⟩ := solid_verb hv
  obtain ⟨rfl, hvx⟩ := blank_append_cancel hw hw' (hsolid.flush.append hne)
    (hsolid.flush.append hne) h
  exact ⟨rfl, List.append_cancel_left hvx⟩

theorem name_append_cancel {g g' u x x' : Bytes} (hg : Gap g) (hg' : Gap g') (hu : Name u)
    (h : g ++ (u ++ x) = g' ++ (u ++ x')) : g = g' ∧ x = x' := by
  obtain ⟨rfl, hux⟩ := blank_append_cancel hg.1 hg'.1 (hu.1.flush.append hu.2.1)
    (hu.1.flush.append hu.2.1) h
  exact ⟨rfl, List.append_cancel_left hux⟩

theorem spells_unique {pieces pieces' : List Bytes} {c c' : ParsedCommand} (h : Spells pieces c)
    (h' : Spells pieces' c') {command : Bytes} (ht : removeLineEnding command = pieces.flatten)
    (ht' : removeLineEnding command = pieces'.flatten) : pieces = pieces' ∧ c = c' := by
  -- the command is determined, so the same constructor built both
  obtain rfl : c = c' := (parseCommand_of_spells h ht).symm.trans (parseCommand_of_spells h' ht')
  refine ⟨?_, rfl⟩
  have hflat := ht.symm.trans ht'
  cases h with
  | privateMessage hw hg hu hg' hm =>
    cases h' with
    | privateMessage hw₁ hg₁ hu₁ hg₁' hm₁ =>
      simp only [List.flatten_cons, List.flatten_nil, List.append_nil] at hflat
      obtain ⟨rfl, hargs⟩ := verb_append_cancel hw hw₁ (by simp [verbs]) hflat
      obtain ⟨rfl, hrest⟩ := name_append_cancel hg hg₁ hu hargs
      rw [List.append_cancel_right hrest]
  | fileTransfer hw hg hu hg' hp hend he =>
    cases h' with
    | fileTransfer hw₁ hg₁ hu₁ hg₁' hp₁ hend₁ he₁ =>
      simp only [List.flatten_cons, List.flatten_nil, List.append_nil] at hflat
      obtain ⟨rfl, hargs⟩ := verb_append_cancel hw hw₁ (by simp [verbs]) hflat
      obtain ⟨rfl, hrest⟩ := name_append_cancel hg hg₁ hu hargs
      obtain ⟨rfl, hpath⟩ := blank_append_cancel hg'.1 hg₁'.1 (hp.1.append hp.2)
        (hp.1.append hp.2) hrest
      rw [List.append_cancel_left hpath]
  | broadcastMessage hw hg hm =>
    cases h' with
    | broadcastMessage hw₁ hg₁ hm₁ =>
      simp only [List.flatten_cons, List.flatten_nil, List.append_nil] at hflat
      obtain ⟨rfl, hargs⟩ := verb_append_cancel hw hw₁ (by simp [verbs]) hflat
      rw [List.append_cancel_right hargs]
  | listUsers hw he =>
    cases h' with
    | listUsers hw₁ he₁ =>
      simp only [List.flatten_cons, List.flatten_nil, List.append_nil] at hflat
      obtain ⟨rfl, rfl⟩ := verb_append_cancel hw hw₁ (by simp [verbs]) hflat
      rfl
  | help hw he =>
    cases h' with
    | help hw₁ he₁ =>
      simp only [List.flatten_cons, List.flatten_nil, List.append_nil] at hflat
      obtain ⟨rfl, rfl⟩ := verb_append_cancel hw hw₁ (by simp [verbs]) hflat
      rfl
  | quit hw he =>
    cases h' with
    | quit hw₁ he₁ =>
      simp only [List.flatten_cons, List.flatten_nil, List.append_nil] at hflat
      obtain ⟨rfl, rfl⟩ := verb_append_cancel hw hw₁ (by simp [verbs]) hflat
      rfl

theorem spells_ne {pieces : List Bytes} {c : ParsedCommand} (h : Spells pieces c) :
    c ≠ .invalid ∧ c ≠ .unknown := by
  cases h <;> exact ⟨nofun, nofun⟩

theorem parseCommand_unknown_iff (command : Bytes) : parseCommand command = .unknown ↔
    token (skipWhitespace (removeLineEnding command)) ∉ verbs := by
  rw [parseCommand_eq]
  generalize skipWhitespace (removeLineEnding command) = line
  constructor
  · intro h hverb
    simp only [verbs, List.mem_cons, List.not_mem_nil, or_false] at hverb
    rcases hverb with hv | hv | hv | hv | hv | hv <;> rw [hv] at h
    · rw [parseArguments_list] at h
      split at h <;> cases h
    · rw [parseArguments_help] at h
      split at h <;> cases h
    · rw [parseArguments_quit] at h
      split at h <;> cases h
    · rw [parseArguments_broadcast] at h
      split at h <;> cases h
    · rw [parseArguments_msg] at h
      split at h <;> cases h
    · rw [parseArguments_file] at h
      split at h <;> cases h
  · exact fun h => parseArguments_unknown h _

/-- Of a line without its line ending, `parse_command` returns the command that its pieces spell.
It answers INVALID when the first token is a verb and no pieces spell a command, and UNKNOWN when
the first token is no verb; there is never more than one way to cut the line. -/
theorem parseCommand_grammar (command : Bytes) :
    (∀ c, (∃ pieces, Spells pieces c ∧ removeLineEnding command = pieces.flatten) ↔
      parseCommand command = c ∧ c ≠ .invalid ∧ c ≠ .unknown) ∧
    (parseCommand command = .invalid ↔
      (∃ v ∈ verbs, FirstToken (removeLineEnding command) v) ∧
      ¬∃ pieces c, Spells pieces c ∧ removeLineEnding command = pieces.flatten) ∧
    (parseCommand command = .unknown ↔ ¬∃ v ∈ verbs, FirstToken (removeLineEnding command) v) ∧
    ∀ pieces pieces' c c', Spells pieces c → Spells pieces' c' →
      removeLineEnding command = pieces.flatten → removeLineEnding command = pieces'.flatten →
      pieces = pieces' ∧ c = c' := by
  have hspells : ∀ c, (∃ pieces, Spells pieces c ∧ removeLineEnding command = pieces.flatten) ↔
      parseCommand command = c ∧ c ≠ .invalid ∧ c ≠ .unknown := by
    intro c
    constructor
    · rintro ⟨pieces, h, ht⟩
      exact ⟨parseCommand_of_spells h ht, spells_ne h⟩
    · rintro ⟨h, hi, hu⟩
      exact spells_of_parseCommand h hi hu
  have hfirst : (∃ v ∈ verbs, FirstToken (removeLineEnding command) v) ↔
      token (skipWhitespace (removeLineEnding command)) ∈ verbs := by
    constructor
    · rintro ⟨v, hv, h⟩
      rwa [(firstToken_iff (solid_verb hv).2).mp h]
    · intro h
      exact ⟨_, h, (firstToken_iff (solid_verb h).2).mpr rfl⟩
  refine ⟨hspells, ?_, ?_, fun _ _ _ _ h h' ht ht' => spells_unique h h' ht ht'⟩
  · rw [hfirst, ← not_iff_not.mpr (parseCommand_unknown_iff command) |>.trans not_not]
    constructor
    · intro h
      refine ⟨by rw [h]; nofun, ?_⟩
      rintro ⟨pieces, c, hs, ht⟩
      rw [parseCommand_of_spells hs ht] at h
      exact (spells_ne hs).1 h
    · rintro ⟨hu, hno⟩
      by_contra hi
      obtain ⟨pieces, hs, ht⟩ := (hspells _).mpr ⟨rfl, hi, hu⟩
      exact hno ⟨pieces, _, hs, ht⟩
  · rw [hfirst]
    exact parseCommand_unknown_iff command

end CipherChat
