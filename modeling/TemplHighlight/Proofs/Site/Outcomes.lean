import TemplHighlight.Proofs.Site.Tasks

/-!
# How a visit to a source ends

Whatever can go wrong when a build comes to a source is listed here once, together with the two ways
in which it goes well: the source needs no rendering, or it is rendered and its digest is put into
the cache. Each case says what was read and written until then, so that what holds of all visits is
proved by going through the cases.
-/

namespace TemplHighlight

/-- The words that a failed build is reported with. There are none for a failure that is not to be
expected, and none for a path that cannot be used at all. -/
def Failure.words? : Failure → Option Text
  | file error => if error.cause = .unusable then none else some error.message
  | failure => failure.report?

namespace Session

variable {session : Session} {path : Text}

/-- Reading the bytes of a file. -/
theorem readBytes_run (session : Session) (path : Text) :
    readBytes path session =
      match session.disk.read path with
      | .ok bytes => .ok bytes session
      | .error error => .error (.file error) session := by
  show (ofExcept ((session.disk.read path).mapError .file)) session = _
  cases session.disk.read path <;> rfl

/-- Reading the text of a file that can be read. -/
theorem readText_of_read {bytes : Bytes} (read : session.disk.read path = .ok bytes) :
    readText path session =
      match Utf8.decode? bytes with
      | some text => .ok text.unifyLineEnds session
      | none => .error .undecodable session := by
  have bytesRead : readBytes path session = .ok bytes session := by
    rw [readBytes_run, read]
  rw [readText, bind_of_ok _ _ bytesRead]
  cases Utf8.decode? bytes <;> rfl

/-- Changing the files. -/
theorem change_run (operation : Disk → Except FileError Disk) (session : Session) :
    change operation session =
      match operation session.disk with
      | .ok disk => .ok () { session with disk }
      | .error error => .error (.file error) session := by
  unfold change
  rw [bind_of_ok session session (by rfl)]
  cases operation session.disk <;> rfl

end Session

/-- Whether the content of a cache is a table. -/
def Cache.IsTable (cache : Cache) : Prop := ∃ members, cache.content = .object members

namespace Site

variable {names : List String} {state : SiteState}

/-- Where every text can be highlighted, every text has a page. -/
theorem page_total {site : Site}
    (total : ∀ text, ∃ items, site.registry.highlight text site.config.language = .ok items)
    (name : String) (text : Text) : ∃ page, site.page name text = .ok page := by
  obtain ⟨items, highlighted⟩ := total text
  exact ⟨_, Outcome.bind_eq_ok.mpr ⟨items, highlighted, rfl⟩⟩

/-- A source that can be read and has to be rendered, as the cache does not have its digest or its
page is not there. -/
structure Stale (names : List String) (state : SiteState) (bytes : Bytes)
    (members : Pairs Json.Value) : Prop where
  read : state.session.disk.read (state.site.sourcePath names).toText = .ok bytes
  isObject : state.site.cache.content = .object members
  stale : (Cache.isCurrent (state.site.sourcePath names).toText (Md5.hexDigest bytes) members &&
    state.session.disk.has (state.site.pagePath names).toText) = false

/-- A source that has to be rendered, and can be shown. -/
structure Showable (names : List String) (state : SiteState) (bytes : Bytes)
    (members : Pairs Json.Value) (page : Text) : Prop extends Stale names state bytes members where
  shown : ∃ text, Utf8.decode? bytes = some text ∧
    state.site.page (state.site.sourcePath names).name text.unifyLineEnds = .ok page

/-- The result of a visit to a source. -/
inductive Visit (names : List String) (state : SiteState) :
    EStateM.Result Failure SiteState Bool → Prop where
  /-- The source cannot be read. -/
  | unread {error : FileError}
      (read : state.session.disk.read (state.site.sourcePath names).toText = .error error) :
      Visit names state (.error (.file error) state)
  /-- The cache is no table. -/
  | untabled {bytes : Bytes}
      (read : state.session.disk.read (state.site.sourcePath names).toText = .ok bytes)
      (noTable : ∀ members, state.site.cache.content ≠ .object members) :
      Visit names state (.error .cacheLookup state)
  /-- The source needs no rendering. -/
  | fresh {bytes : Bytes} {members : Pairs Json.Value}
      (read : state.session.disk.read (state.site.sourcePath names).toText = .ok bytes)
      (isObject : state.site.cache.content = .object members)
      (current : Cache.isCurrent (state.site.sourcePath names).toText (Md5.hexDigest bytes) members)
      (there : state.session.disk.has (state.site.pagePath names).toText) :
      Visit names state (.ok false state)
  /-- The source is no text. -/
  | undecodable {bytes : Bytes} {members : Pairs Json.Value} (stale : Stale names state bytes members)
      (noText : Utf8.decode? bytes = none) : Visit names state (.error .undecodable state)
  /-- The source cannot be highlighted. -/
  | unshown {bytes : Bytes} {members : Pairs Json.Value} {text : Text} {error : HighlightError}
      (stale : Stale names state bytes members) (isText : Utf8.decode? bytes = some text)
      (failed : state.site.page (state.site.sourcePath names).name text.unifyLineEnds =
        .error error) : Visit names state (.error (.highlight error) state)
  /-- The directory of the page cannot be made. -/
  | unmade {bytes : Bytes} {members : Pairs Json.Value} {page : Text} {error : FileError}
      (showable : Showable names state bytes members page)
      (made : state.session.disk.makeDirectories (state.site.pagePath names).parent =
        .error error) : Visit names state (.error (.file error) state)
  /-- The page cannot be written. -/
  | unwritten {bytes : Bytes} {members : Pairs Json.Value} {page : Text} {disk : Disk}
      {error : FileError} (showable : Showable names state bytes members page)
      (made : state.session.disk.makeDirectories (state.site.pagePath names).parent = .ok disk)
      (wrote : disk.write (state.site.pagePath names).toText (Utf8.encode page) = .error error) :
      Visit names state (.error (.file error) { state with session.disk := disk })
  /-- The source can no longer be read when its page was written. -/
  | unnoted {bytes : Bytes} {members : Pairs Json.Value} {page : Text} {middle disk : Disk}
      {error : FileError} (showable : Showable names state bytes members page)
      (made : state.session.disk.makeDirectories (state.site.pagePath names).parent = .ok middle)
      (wrote : middle.write (state.site.pagePath names).toText (Utf8.encode page) = .ok disk)
      (reread : disk.read (state.site.sourcePath names).toText = .error error) :
      Visit names state (.error (.file error) { state with session.disk := disk })
  /-- The source is rendered, and the digest that it has then is put into the cache. -/
  | rendered {bytes digested : Bytes} {members : Pairs Json.Value} {page : Text}
      {middle disk : Disk} (showable : Showable names state bytes members page)
      (made : state.session.disk.makeDirectories (state.site.pagePath names).parent = .ok middle)
      (wrote : middle.write (state.site.pagePath names).toText (Utf8.encode page) = .ok disk)
      (reread : disk.read (state.site.sourcePath names).toText = .ok digested) :
      Visit names state (.ok true ⟨{ state.site with
        cache.content := .object (Pairs.put (String.ofList (state.site.sourcePath names).toText)
          (.string (Md5.hexDigest digested)) members)
        generated := state.site.generated ++ [state.site.pagePath names] },
        { state.session with
          disk
          printed := state.session.printed ++
            ("  ".toList ++ Path.toText ⟨0, names⟩ ++ " -> ".toList ++
              (state.site.pagePath names).toText ++ ['\n']) }⟩)

/-! ## Parts of a visit -/

section

variable {source target : Path} {bytes : Bytes} {members : Pairs Json.Value}

/-- A file that cannot be read has no digest. -/
theorem digest_of_unread (session : Session) {path : Text} {error : FileError}
    (read : session.disk.read path = .error error) :
    Cache.digest path session = .error (.file error) session :=
  bind_of_error (by rw [Session.readBytes_run, read])

/-- The digest of a file that can be read. -/
theorem digest_of_read (session : Session) {path : Text} (read : session.disk.read path = .ok bytes) :
    Cache.digest path session = .ok (Md5.hexDigest bytes) session :=
  bind_of_ok bytes session (by rw [Session.readBytes_run, read])

/-- A source that cannot be read ends the look whether it is fresh. -/
theorem isFresh_unread {error : FileError}
    (read : state.session.disk.read source.toText = .error error) :
    isFresh source target state = .error (.file error) state := by
  unfold isFresh
  rw [bind_of_ok state.site state (by rfl)]
  exact bind_of_error (SiteTask.ofTask_of_error (bind_of_error (digest_of_unread _ read)))

/-- Nothing can be looked up in a cache that is no table. -/
theorem isFresh_untabled (read : state.session.disk.read source.toText = .ok bytes)
    (noTable : ∀ members, state.site.cache.content ≠ .object members) :
    isFresh source target state = .error .cacheLookup state := by
  have changed : state.site.cache.isChanged source.toText state.session =
      .error .cacheLookup state.session := by
    unfold Cache.isChanged
    rw [bind_of_ok _ _ (digest_of_read _ read)]
    cases content : state.site.cache.content with
    | object members => exact absurd content (noTable members)
    | _ => rfl
  unfold isFresh
  rw [bind_of_ok state.site state (by rfl)]
  exact bind_of_error (SiteTask.ofTask_of_error changed)

/-- The digest of a source is looked up in a cache that is a table. -/
theorem isFresh_tabled (read : state.session.disk.read source.toText = .ok bytes)
    (isObject : state.site.cache.content = .object members) :
    isFresh source target state =
      .ok (Cache.isCurrent source.toText (Md5.hexDigest bytes) members &&
        state.session.disk.has target.toText) state := by
  have changed : state.site.cache.isChanged source.toText state.session =
      .ok (!Cache.isCurrent source.toText (Md5.hexDigest bytes) members) state.session := by
    unfold Cache.isChanged
    rw [bind_of_ok _ _ (digest_of_read _ read), isObject]
    rfl
  unfold isFresh
  rw [bind_of_ok state.site state (by rfl)]
  refine (bind_of_ok _ _ (SiteTask.ofTask_of_ok changed)).trans ?_
  show EStateM.Result.ok _ _ = _
  rw [Bool.not_not]

/-- A source that can be read is rendered in four steps, each of which may fail. -/
theorem render_run (target : Path) (read : state.session.disk.read source.toText = .ok bytes) :
    render source (some target) state =
      match Utf8.decode? bytes with
      | none => .error .undecodable state
      | some text =>
        match state.site.page source.name text.unifyLineEnds with
        | .error error => .error (.highlight error) state
        | .ok page =>
          match state.session.disk.makeDirectories target.parent with
          | .error error => .error (.file error) state
          | .ok middle =>
            match middle.write target.toText (Utf8.encode page) with
            | .error error => .error (.file error) { state with session.disk := middle }
            | .ok disk => .ok target { state with session.disk := disk } := by
  have textRead := Session.readText_of_read read
  unfold render
  cases isText : Utf8.decode? bytes with
  | none =>
    rw [isText] at textRead
    exact bind_of_error (SiteTask.ofTask_of_error textRead)
  | some text =>
    rw [isText] at textRead
    refine (bind_of_ok _ _ (SiteTask.ofTask_of_ok textRead)).trans ?_
    rw [bind_of_ok state.site state (by rfl)]
    dsimp only
    cases state.site.page source.name text.unifyLineEnds with
    | error error => exact bind_of_error rfl
    | ok page =>
      refine (bind_of_ok page state rfl).trans ?_
      rw [bind_of_ok target state (by rfl)]
      have makes : Session.makeDirectories target.parent state.session = _ :=
        Session.change_run _ state.session
      cases made : state.session.disk.makeDirectories target.parent with
      | error error =>
        rw [made] at makes
        exact bind_of_error (SiteTask.ofTask_of_error makes)
      | ok middle =>
        rw [made] at makes
        refine (bind_of_ok _ _ (SiteTask.ofTask_of_ok makes)).trans ?_
        dsimp only
        have writes : Session.writeText target.toText page { state.session with disk := middle } = _ :=
          Session.change_run _ _
        cases wrote : middle.write target.toText (Utf8.encode page) with
        | error error =>
          simp only [wrote] at writes
          exact bind_of_error (SiteTask.ofTask_of_error writes)
        | ok disk =>
          simp only [wrote] at writes
          exact bind_of_ok _ _ (SiteTask.ofTask_of_ok writes)

/-- The digest of a source that was rendered is put into the cache. -/
theorem update_of_read {cache : Cache} (session : Session) {path : Text}
    (read : session.disk.read path = .ok bytes) (isObject : cache.content = .object members) :
    cache.update path session =
      .ok { cache with
        content := .object (Pairs.put (String.ofList path) (.string (Md5.hexDigest bytes)) members) }
        session := by
  unfold Cache.update
  rw [bind_of_ok _ _ (digest_of_read _ read), isObject]
  rfl

end

/-- Every visit to a source ends in one of these ways. -/
theorem visit (names : List String) (state : SiteState) : Visit names state (refresh names state) := by
  unfold refresh
  rw [bind_of_ok state.site state (by rfl)]
  cases read : state.session.disk.read (state.site.sourcePath names).toText with
  | error error =>
    rw [bind_of_error (isFresh_unread read)]
    exact .unread read
  | ok bytes =>
    by_cases table : ∃ members, state.site.cache.content = .object members
    case neg =>
      have noTable : ∀ members, state.site.cache.content ≠ .object members :=
        fun members same => table ⟨members, same⟩
      rw [bind_of_error (isFresh_untabled read noTable)]
      exact .untabled read noTable
    obtain ⟨members, isObject⟩ := table
    rw [bind_of_ok _ _ (isFresh_tabled read isObject)]
    split
    next isFresh =>
      obtain ⟨current, there⟩ := Bool.and_eq_true_iff.mp isFresh
      exact .fresh read isObject current there
    next notFresh =>
      have stale : Stale names state bytes members := ⟨read, isObject, Bool.not_eq_true _ ▸ notFresh⟩
      have renders := render_run (state.site.pagePath names) read
      cases isText : Utf8.decode? bytes with
      | none =>
        simp only [isText] at renders
        rw [bind_of_error renders]
        exact .undecodable stale isText
      | some text =>
        cases shown : state.site.page (state.site.sourcePath names).name text.unifyLineEnds with
        | error error =>
          simp only [isText, shown] at renders
          rw [bind_of_error renders]
          exact .unshown stale isText shown
        | ok page =>
          have showable : Showable names state bytes members page := ⟨stale, text, isText, shown⟩
          cases made : state.session.disk.makeDirectories (state.site.pagePath names).parent with
          | error error =>
            simp only [isText, shown, made] at renders
            rw [bind_of_error renders]
            exact .unmade showable made
          | ok middle =>
            cases wrote : middle.write (state.site.pagePath names).toText (Utf8.encode page) with
            | error error =>
              simp only [isText, shown, made, wrote] at renders
              rw [bind_of_error renders]
              exact .unwritten showable made wrote
            | ok disk =>
              simp only [isText, shown, made, wrote] at renders
              rw [bind_of_ok _ _ renders, bind_of_ok state.site _ (by rfl)]
              show Visit names state ((SiteTask.ofTask (state.site.cache.update _) >>= _) _)
              cases reread : disk.read (state.site.sourcePath names).toText with
              | error error =>
                have updates : state.site.cache.update (state.site.sourcePath names).toText
                    { state.session with disk } = .error (.file error) { state.session with disk } :=
                  bind_of_error (digest_of_unread _ reread)
                rw [bind_of_error (SiteTask.ofTask_of_error updates)]
                exact .unnoted showable made wrote reread
              | ok digested =>
                have updates := update_of_read { state.session with disk } reread isObject
                rw [bind_of_ok _ _ (SiteTask.ofTask_of_ok updates)]
                exact .rendered showable made wrote reread

end Site

end TemplHighlight
