import Mathlib.Data.List.Destutter
import Rmux.Text

/-!
# The options

Every known option has a row, and `resolveOptionName` finds the row of a name. A name may be an
alias or an unambiguous beginning of a name, may have an array index, and names a user option if it
starts with `@`.
-/

namespace Rmux

open MachineInt

/-- The known options. -/
inductive OptionName
  | status | defaultTerminal | terminalFeatures | paneBorderStyle | paneActiveBorderStyle
  | bufferLimit | baseIndex | historyLimit | displayPanesTime | displayTime | statusLeft
  | statusRight | statusPosition | statusStyle | statusLeftLength | statusRightLength
  | statusLeftStyle | statusRightStyle | statusInterval | statusJustify | windowStatusCurrentFormat
  | windowStatusFormat | windowStatusCurrentStyle | windowStatusStyle | mainPaneWidth
  | mainPaneHeight | paneBaseIndex | modeKeys | automaticRename | windowStyle | backspace
  | commandAlias | codepointWidths | copyCommand | cursorColour | cursorStyle
  | defaultClientCommand | editor | escapeTime | exitEmpty | exitUnattached | extendedKeys
  | extendedKeysFormat | focusEvents | getClipboard | historyFile | inputBufferSize | menuStyle
  | menuSelectedStyle | menuBorderStyle | menuBorderLines | messageLimit | prefixTimeout
  | promptHistoryLimit | setClipboard | terminalOverrides | userKeys | variationSelectorAlwaysWide
  | activityAction | assumePasteTime | bellAction | defaultCommand | defaultShell | defaultSize
  | destroyUnattached | detachOnDestroy | displayPanesActiveColour | displayPanesColour
  | focusFollowsMouse | initialRepeatTime | keyTable | lockAfterTime | lockCommand
  | messageCommandStyle | messageFormat | messageLine | messageStyle | mouse | prefixKey
  | prefixKey2 | renumberWindows | repeatTime | setTitles | setTitlesString | silenceAction
  | statusBg | statusFg | statusFormat | statusKeys | paneStatusCurrentStyle | paneStatusStyle
  | promptCursorColour | promptCursorStyle | promptCommandCursorStyle | sessionStatusCurrentStyle
  | sessionStatusStyle | updateEnvironment | visualActivity | visualBell | visualSilence
  | wordSeparators | aggressiveResize | allowPassthrough | allowRename | allowSetTitle
  | alternateScreen | automaticRenameFormat | clockModeColour | clockModeStyle | copyModeMatchStyle
  | copyModeCurrentMatchStyle | copyModeMarkStyle | copyModePositionFormat | copyModePositionStyle
  | copyModeSelectionStyle | fillCharacter | modeStyle | monitorActivity | monitorBell
  | monitorSilence | otherPaneHeight | otherPaneWidth | paneBorderFormat | paneBorderIndicators
  | paneBorderLines | paneBorderStatus | paneColours | paneScrollbars | paneScrollbarsStyle
  | paneScrollbarsPosition | popupStyle | popupBorderStyle | popupBorderLines | remainOnExit
  | remainOnExitFormat | scrollOnClear | synchronizePanes | tiledLayoutMaxColumns
  | windowActiveStyle | windowSize | windowStatusActivityStyle | windowStatusBellStyle
  | windowStatusLastStyle | windowStatusSeparator | wrapSearch | xtermKeys | copyModeLineNumbers
  | copyModeLineNumberStyle | copyModeCurrentLineNumberStyle
deriving DecidableEq

/-- The tree of the global value of an option. -/
inductive GlobalRoot
  | server
  | session
  | window
deriving DecidableEq

/-- The type of an option. -/
inductive OptionValueType
  | string
  | number (minimum : ℕ)
  | key
  | colour
  | flag
  | choice (choices : List Text)
  | command
deriving DecidableEq

/-- The default of an option. -/
inductive DefaultValue
  | scalar (value : Text)
  | array (values : List Text)
deriving DecidableEq

def scopeServer : ℕ := 0x1
def scopeSession : ℕ := 0x2
def scopeWindow : ℕ := 0x4
def scopePane : ℕ := 0x8

/-- What the change of an option affects, as bits. -/
abbrev OptionChangeMask := ℕ

def effectNone : OptionChangeMask := 0
def effectRender : OptionChangeMask := 0x1
def effectPaneStyle : OptionChangeMask := 0x2
def effectTranscriptLimit : OptionChangeMask := 0x4
def effectStyleParse : OptionChangeMask := 0x8
def effectTerminalFeatures : OptionChangeMask := 0x10
def effectKeyTable : OptionChangeMask := 0x20
def effectUserKeys : OptionChangeMask := 0x40
def effectCursor : OptionChangeMask := 0x80
def effectFillCharacter : OptionChangeMask := 0x100
def effectStatusTimer : OptionChangeMask := 0x200
def effectAlerts : OptionChangeMask := 0x400
def effectLayout : OptionChangeMask := 0x800
def effectScrollbarStyle : OptionChangeMask := 0x1000
def effectCodepointWidths : OptionChangeMask := 0x2000
def effectInputBufferSize : OptionChangeMask := 0x4000
def effectPaneColours : OptionChangeMask := 0x8000
def effectAutomaticRename : OptionChangeMask := 0x10000

def OptionChangeMask.contains (mask other : OptionChangeMask) : Bool := mask &&& other = other

/-- The row of an option. The scopes it may be set at are bits, and the separator is for the items
of an array. -/
structure OptionMetadata where
  option : OptionName
  name : Text
  aliases : List Text
  scopeMask : ℕ
  globalRoot : GlobalRoot
  valueType : OptionValueType
  default : DefaultValue
  separator : Text
  isArray : Bool
  effects : OptionChangeMask
deriving DecidableEq

namespace OptionTable

/-- A row of the table. -/
def option (option : OptionName) (name : String) (aliases : List String) (scopeMask : ℕ)
    (globalRoot : GlobalRoot) (valueType : OptionValueType) (default : DefaultValue)
    (separator : String) (isArray : Bool) (effects : OptionChangeMask) : OptionMetadata :=
  ⟨option, name.toList, aliases.map String.toList, scopeMask, globalRoot, valueType, default,
    separator.toList, isArray, effects⟩

def scalar (value : String) : DefaultValue := .scalar value.toList

def array (values : List String) : DefaultValue := .array (values.map String.toList)

def choice (choices : List String) : OptionValueType := .choice (choices.map String.toList)

def statusFormat0 : String :=
  "#[align=left range=left #{E:status-left-style}]#[push-default]#{T;=/#{status-left-length}:status-left}#[pop-default]#[norange default]#[list=on align=#{status-justify}]#[list=left-marker]<#[list=right-marker]>#[list=on]#{W:#[range=window|#{window_index} #{E:window-status-style}#{?#{&&:#{window_last_flag},#{!=:#{E:window-status-last-style},default}}, #{E:window-status-last-style},}#{?#{&&:#{window_bell_flag},#{!=:#{E:window-status-bell-style},default}}, #{E:window-status-bell-style},#{?#{&&:#{||:#{window_activity_flag},#{window_silence_flag}},#{!=:#{E:window-status-activity-style},default}}, #{E:window-status-activity-style},}}]#[push-default]#{T:window-status-format}#[pop-default]#[norange default]#{?loop_last_flag,,#{E:window-status-separator}},#[range=window|#{window_index} list=focus #{?#{!=:#{E:window-status-current-style},default},#{E:window-status-current-style},#{E:window-status-style}}#{?#{&&:#{window_last_flag},#{!=:#{E:window-status-last-style},default}}, #{E:window-status-last-style},}#{?#{&&:#{window_bell_flag},#{!=:#{E:window-status-bell-style},default}}, #{E:window-status-bell-style},#{?#{&&:#{||:#{window_activity_flag},#{window_silence_flag}},#{!=:#{E:window-status-activity-style},default}}, #{E:window-status-activity-style},}}]#[push-default]#{T:window-status-current-format}#[pop-default]#[norange list=on default]#{?loop_last_flag,,#{E:window-status-separator}}}#[nolist align=right range=right #{E:status-right-style}]#[push-default]#{T;=/#{status-right-length}:status-right}#[pop-default]#[norange default]"

def statusFormat1 : String :=
  "#[align=left]#{R: ,#{n:#{session_name}}}P: #[norange default]#[list=on align=#{status-justify}]#[list=left-marker]<#[list=right-marker]>#[list=on]#{P:#[range=pane|#{pane_id} #{E:pane-status-style}]#[push-default]#{T:window-pane-status-format}#[pop-default]#[norange list=on default]  ,#[range=pane|#{pane_id} list=focus #{?#{!=:#{E:pane-status-current-style},default},#{E:pane-status-current-style},#{E:pane-status-style}}]#[push-default]#{T:window-pane-current-status-format}#[pop-default]#[norange list=on default] }"

def statusFormat2 : String :=
  "#[align=left]#{R: ,#{n:#{session_name}}}S: #[norange default]#[list=on align=#{status-justify}]#[list=left-marker]<#[list=right-marker]>#[list=on]#{S:#[range=session|#{session_id} #{E:session-status-style}]#[push-default]#S#{session_alert}#[pop-default]#[norange list=on default]  ,#[range=session|#{session_id} list=focus #{?#{!=:#{E:session-status-current-style},default},#{E:session-status-current-style},#{E:session-status-style}}]#[push-default]#S*#{session_alert}#[pop-default]#[norange list=on default] }"

def statusRightDefault : String :=
  "#{?window_bigger,[#{window_offset_x}#,#{window_offset_y}] ,}\"#{=21:pane_title}\" %H:%M %d-%b-%y"

def allowPassthroughChoices : OptionValueType :=
  choice ["off", "on", "all"]
def bellActionChoices : OptionValueType :=
  choice ["none", "any", "current", "other"]
def clockModeStyleChoices : OptionValueType :=
  choice ["12", "24", "12-with-seconds", "24-with-seconds"]
def copyModeLineNumbersChoices : OptionValueType :=
  choice ["off", "default", "absolute", "relative", "hybrid"]
def cursorStyleChoices : OptionValueType :=
  choice ["default", "blinking-block", "block", "blinking-underline", "underline", "blinking-bar",
  "bar"]
def destroyUnattachedChoices : OptionValueType :=
  choice ["off", "on", "keep-last", "keep-group"]
def detachOnDestroyChoices : OptionValueType :=
  choice ["off", "on", "no-detached", "previous", "next"]
def extendedKeysChoices : OptionValueType :=
  choice ["off", "on", "always"]
def extendedKeysFormatChoices : OptionValueType :=
  choice ["csi-u", "xterm"]
def getClipboardChoices : OptionValueType :=
  choice ["off", "buffer", "request", "both"]
def messageLineChoices : OptionValueType :=
  choice ["0", "1", "2", "3", "4"]
def modeKeysChoices : OptionValueType :=
  choice ["emacs", "vi"]
def paneBorderIndicatorsChoices : OptionValueType :=
  choice ["off", "colour", "arrows", "both"]
def paneBorderLinesChoices : OptionValueType :=
  choice ["single", "double", "heavy", "simple", "number", "spaces"]
def paneScrollbarsChoices : OptionValueType :=
  choice ["off", "modal", "on"]
def paneScrollbarsPositionChoices : OptionValueType :=
  choice ["right", "left"]
def paneStatusChoices : OptionValueType :=
  choice ["off", "top", "bottom"]
def popupBorderLinesChoices : OptionValueType :=
  choice ["single", "double", "heavy", "simple", "rounded", "padded", "none"]
def remainOnExitChoices : OptionValueType :=
  choice ["off", "on", "failed", "key"]
def setClipboardChoices : OptionValueType :=
  choice ["off", "external", "on"]
def statusChoices : OptionValueType :=
  choice ["off", "on", "2", "3", "4", "5"]
def statusJustifyChoices : OptionValueType :=
  choice ["left", "centre", "right", "absolute-centre"]
def statusKeysChoices : OptionValueType :=
  choice ["emacs", "vi"]
def statusPositionChoices : OptionValueType :=
  choice ["top", "bottom"]
def visualBellChoices : OptionValueType :=
  choice ["off", "on", "both"]
def windowSizeChoices : OptionValueType :=
  choice ["largest", "smallest", "manual", "latest"]

/-- The known options in the order of the source. -/
def options : List OptionMetadata := [
  option .backspace "backspace" [] scopeServer .server .key (scalar "C-?") "" false effectNone,
  option .bufferLimit "buffer-limit" [] scopeServer .server (.number 1) (scalar "50") "" false
    effectNone,
  option .commandAlias "command-alias" [] scopeServer .server .string
    (scalar ("split-pane=split-window,splitp=split-window,server-info=show-messages -JT," ++
      "info=show-messages -JT,choose-window=choose-tree -w,choose-session=choose-tree -s")) "," true
    effectNone,
  option .codepointWidths "codepoint-widths" [] scopeServer .server .string (scalar "") "," true
    effectCodepointWidths,
  option .copyCommand "copy-command" [] scopeServer .server .string (scalar "") "" false
    effectNone,
  option .cursorColour "cursor-colour" ["cursor-color"] (scopeWindow ||| scopePane) .window
    .colour (scalar "none") "" false (effectRender ||| effectCursor),
  option .cursorStyle "cursor-style" [] (scopeWindow ||| scopePane) .window cursorStyleChoices
    (scalar "default") "" false (effectRender ||| effectCursor),
  option .defaultClientCommand "default-client-command" [] scopeServer .server .command
    (scalar "new-session") "" false effectNone,
  option .defaultTerminal "default-terminal" [] scopeServer .server .string
    (scalar "tmux-256color") "" false effectNone,
  option .editor "editor" [] scopeServer .server .string (scalar "/usr/bin/vi") "" false
    effectNone,
  option .escapeTime "escape-time" [] scopeServer .server (.number 0) (scalar "10") "" false
    effectNone,
  option .exitEmpty "exit-empty" [] scopeServer .server .flag (scalar "on") "" false effectNone,
  option .exitUnattached "exit-unattached" [] scopeServer .server .flag (scalar "off") "" false
    effectNone,
  option .extendedKeys "extended-keys" [] scopeServer .server extendedKeysChoices (scalar "off")
    "" false effectNone,
  option .extendedKeysFormat "extended-keys-format" [] scopeServer .server
    extendedKeysFormatChoices (scalar "xterm") "" false effectNone,
  option .focusEvents "focus-events" [] scopeServer .server .flag (scalar "off") "" false
    effectNone,
  option .getClipboard "get-clipboard" [] scopeServer .server getClipboardChoices
    (scalar "buffer") "" false effectNone,
  option .historyFile "history-file" [] scopeServer .server .string (scalar "") "" false
    effectNone,
  option .inputBufferSize "input-buffer-size" [] scopeServer .server (.number 1048576)
    (scalar "1048576") "" false effectInputBufferSize,
  option .menuStyle "menu-style" [] scopeWindow .window .string (scalar "default") "," false
    (effectRender ||| effectStyleParse),
  option .menuSelectedStyle "menu-selected-style" [] scopeWindow .window .string
    (scalar "bg=yellow,fg=black") "," false (effectRender ||| effectStyleParse),
  option .menuBorderStyle "menu-border-style" [] scopeWindow .window .string (scalar "default")
    "," false (effectRender ||| effectStyleParse),
  option .menuBorderLines "menu-border-lines" [] scopeWindow .window popupBorderLinesChoices
    (scalar "single") "" false effectRender,
  option .messageLimit "message-limit" [] scopeServer .server (.number 0) (scalar "1000") "" false
    effectNone,
  option .prefixTimeout "prefix-timeout" [] scopeServer .server (.number 0) (scalar "0") "" false
    effectNone,
  option .promptHistoryLimit "prompt-history-limit" [] scopeServer .server (.number 0)
    (scalar "100") "" false effectNone,
  option .setClipboard "set-clipboard" [] scopeServer .server setClipboardChoices
    (scalar "external") "" false effectNone,
  option .terminalOverrides "terminal-overrides" [] scopeServer .server .string
    (scalar "linux*:AX@") "," true effectNone,
  option .terminalFeatures "terminal-features" [] scopeServer .server .string
    (scalar "xterm*:clipboard:ccolour:cstyle:focus:title,screen*:title,rxvt*:ignorefkeys") ","
    true effectTerminalFeatures,
  option .userKeys "user-keys" [] scopeServer .server .string (scalar "") "," true effectUserKeys,
  option .variationSelectorAlwaysWide "variation-selector-always-wide" [] scopeServer .server
    .flag (scalar "on") "" false effectCodepointWidths,
  option .activityAction "activity-action" [] scopeSession .session bellActionChoices
    (scalar "other") "" false effectRender,
  option .assumePasteTime "assume-paste-time" [] scopeSession .session (.number 0) (scalar "1") ""
    false effectNone,
  option .baseIndex "base-index" [] scopeSession .session (.number 0) (scalar "0") "" false
    effectNone,
  option .bellAction "bell-action" [] scopeSession .session bellActionChoices (scalar "any") ""
    false effectRender,
  option .defaultCommand "default-command" [] scopeSession .session .string (scalar "") "" false
    effectNone,
  option .defaultShell "default-shell" [] scopeSession .session .string (scalar "") "" false
    effectNone,
  option .defaultSize "default-size" [] scopeSession .session .string (scalar "80x24") "" false
    effectNone,
  option .destroyUnattached "destroy-unattached" [] scopeSession .session destroyUnattachedChoices
    (scalar "off") "" false effectNone,
  option .detachOnDestroy "detach-on-destroy" [] scopeSession .session detachOnDestroyChoices
    (scalar "on") "" false effectNone,
  option .displayPanesActiveColour "display-panes-active-colour" ["display-panes-active-color"]
    scopeSession .session .colour (scalar "red") "" false effectRender,
  option .displayPanesColour "display-panes-colour" ["display-panes-color"] scopeSession .session
    .colour (scalar "blue") "" false effectRender,
  option .displayPanesTime "display-panes-time" [] scopeSession .session (.number 1)
    (scalar "1000") "" false effectRender,
  option .displayTime "display-time" [] scopeSession .session (.number 0) (scalar "750") "" false
    effectRender,
  option .focusFollowsMouse "focus-follows-mouse" [] scopeSession .session .flag (scalar "off") ""
    false effectNone,
  option .historyLimit "history-limit" [] scopeSession .session (.number 0) (scalar "2000") ""
    false effectTranscriptLimit,
  option .initialRepeatTime "initial-repeat-time" [] scopeSession .session (.number 0)
    (scalar "0") "" false effectNone,
  option .keyTable "key-table" [] scopeSession .session .string (scalar "root") "" false
    effectKeyTable,
  option .lockAfterTime "lock-after-time" [] scopeSession .session (.number 0) (scalar "0") ""
    false effectNone,
  option .lockCommand "lock-command" [] scopeSession .session .string (scalar "lock -np") "" false
    effectNone,
  option .messageCommandStyle "message-command-style" [] scopeSession .session .string
    (scalar "bg=black,fg=yellow,fill=black") "," false (effectRender ||| effectStyleParse),
  option .messageFormat "message-format" [] scopeSession .session .string
    (scalar "#[#{?#{command_prompt},#{E:message-command-style},#{E:message-style}}]#{message}")
    "" false effectRender,
  option .messageLine "message-line" [] scopeSession .session messageLineChoices (scalar "0") ""
    false effectRender,
  option .messageStyle "message-style" [] scopeSession .session .string
    (scalar "bg=yellow,fg=black,fill=yellow") "," false (effectRender ||| effectStyleParse),
  option .mouse "mouse" [] scopeSession .session .flag (scalar "off") "" false effectNone,
  option .prefixKey "prefix" [] scopeSession .session .key (scalar "C-b") "" false effectNone,
  option .prefixKey2 "prefix2" [] scopeSession .session .key (scalar "None") "" false effectNone,
  option .renumberWindows "renumber-windows" [] scopeSession .session .flag (scalar "off") ""
    false effectNone,
  option .repeatTime "repeat-time" [] scopeSession .session (.number 0) (scalar "500") "" false
    effectNone,
  option .setTitles "set-titles" [] scopeSession .session .flag (scalar "off") "" false
    effectRender,
  option .setTitlesString "set-titles-string" [] scopeSession .session .string
    (scalar "#S:#I:#W - \"#T\" #{session_alerts}") "" false effectRender,
  option .silenceAction "silence-action" [] scopeSession .session bellActionChoices
    (scalar "other") "" false effectRender,
  option .status "status" [] scopeSession .session statusChoices (scalar "on") "" false
    (effectRender ||| effectStatusTimer),
  option .statusBg "status-bg" [] scopeSession .session .colour (scalar "default") "" false
    effectRender,
  option .statusFg "status-fg" [] scopeSession .session .colour (scalar "default") "" false
    effectRender,
  option .statusFormat "status-format" [] scopeSession .session .string
    (array [statusFormat0, statusFormat1, statusFormat2]) "" true effectRender,
  option .statusInterval "status-interval" [] scopeSession .session (.number 0) (scalar "15") ""
    false (effectRender ||| effectStatusTimer),
  option .statusJustify "status-justify" [] scopeSession .session statusJustifyChoices
    (scalar "left") "" false effectRender,
  option .statusKeys "status-keys" [] scopeSession .session statusKeysChoices (scalar "emacs") ""
    false effectRender,
  option .statusLeft "status-left" [] scopeSession .session .string
    (scalar "[#{session_name}] ") "" false effectRender,
  option .statusLeftLength "status-left-length" [] scopeSession .session (.number 0) (scalar "10")
    "" false effectRender,
  option .statusLeftStyle "status-left-style" [] scopeSession .session .string (scalar "default")
    "," false (effectRender ||| effectStyleParse),
  option .statusPosition "status-position" [] scopeSession .session statusPositionChoices
    (scalar "bottom") "" false effectRender,
  option .statusRight "status-right" [] scopeSession .session .string (scalar statusRightDefault)
    "" false effectRender,
  option .statusRightLength "status-right-length" [] scopeSession .session (.number 0)
    (scalar "40") "" false effectRender,
  option .statusRightStyle "status-right-style" [] scopeSession .session .string
    (scalar "default") "," false (effectRender ||| effectStyleParse),
  option .statusStyle "status-style" [] scopeSession .session .string (scalar "bg=green,fg=black")
    "," false (effectRender ||| effectStyleParse),
  option .paneStatusCurrentStyle "pane-status-current-style" [] scopeWindow .window .string
    (scalar "default") "," false (effectRender ||| effectStyleParse),
  option .paneStatusStyle "pane-status-style" [] scopeWindow .window .string (scalar "default")
    "," false (effectRender ||| effectStyleParse),
  option .promptCursorColour "prompt-cursor-colour" ["prompt-cursor-color"] scopeSession .session
    .colour (scalar "none") "" false effectRender,
  option .promptCursorStyle "prompt-cursor-style" [] scopeSession .session cursorStyleChoices
    (scalar "default") "" false effectRender,
  option .promptCommandCursorStyle "prompt-command-cursor-style" [] scopeSession .session
    cursorStyleChoices (scalar "default") "" false effectRender,
  option .sessionStatusCurrentStyle "session-status-current-style" [] scopeWindow .window .string
    (scalar "default") "," false (effectRender ||| effectStyleParse),
  option .sessionStatusStyle "session-status-style" [] scopeWindow .window .string
    (scalar "default") "," false (effectRender ||| effectStyleParse),
  option .updateEnvironment "update-environment" [] scopeSession .session .string
    (scalar ("DISPLAY KRB5CCNAME MSYSTEM SSH_ASKPASS SSH_AUTH_SOCK SSH_AGENT_PID " ++
      "SSH_CONNECTION WAYLAND_DISPLAY WINDOWID XAUTHORITY XDG_CURRENT_DESKTOP " ++
      "XDG_SESSION_DESKTOP XDG_SESSION_TYPE")) " " true effectNone,
  option .visualActivity "visual-activity" [] scopeSession .session visualBellChoices
    (scalar "off") "" false effectRender,
  option .visualBell "visual-bell" [] scopeSession .session visualBellChoices (scalar "off") ""
    false effectRender,
  option .visualSilence "visual-silence" [] scopeSession .session visualBellChoices (scalar "off")
    "" false effectRender,
  option .wordSeparators "word-separators" [] scopeSession .session .string
    (scalar "!\"#$%&'()*+,-./:;<=>?@[\\]^`{|}~") "" false effectNone,
  option .aggressiveResize "aggressive-resize" [] scopeWindow .window .flag (scalar "off") ""
    false effectLayout,
  option .allowPassthrough "allow-passthrough" [] (scopeWindow ||| scopePane) .window
    allowPassthroughChoices (scalar "off") "" false effectNone,
  option .allowRename "allow-rename" [] (scopeWindow ||| scopePane) .window .flag (scalar "off")
    "" false effectNone,
  option .allowSetTitle "allow-set-title" [] (scopeWindow ||| scopePane) .window .flag
    (scalar "on") "" false effectNone,
  option .alternateScreen "alternate-screen" [] (scopeWindow ||| scopePane) .window .flag
    (scalar "on") "" false effectNone,
  option .automaticRename "automatic-rename" [] scopeWindow .window .flag (scalar "on") "" false
    (effectRender ||| effectAutomaticRename),
  option .automaticRenameFormat "automatic-rename-format" [] scopeWindow .window .string
    (scalar "#{?pane_in_mode,[tmux],#{pane_current_command}}#{?pane_dead,[dead],}") ""
    false effectRender,
  option .clockModeColour "clock-mode-colour" ["clock-mode-color"] scopeWindow .window .colour
    (scalar "blue") "" false effectRender,
  option .clockModeStyle "clock-mode-style" [] scopeWindow .window clockModeStyleChoices
    (scalar "24") "" false effectRender,
  option .copyModeMatchStyle "copy-mode-match-style" [] scopeWindow .window .string
    (scalar "bg=cyan,fg=black") "," false (effectRender ||| effectStyleParse),
  option .copyModeCurrentMatchStyle "copy-mode-current-match-style" [] scopeWindow .window .string
    (scalar "bg=magenta,fg=black") "," false (effectRender ||| effectStyleParse),
  option .copyModeMarkStyle "copy-mode-mark-style" [] scopeWindow .window .string
    (scalar "bg=red,fg=black") "," false (effectRender ||| effectStyleParse),
  option .copyModeLineNumbers "copy-mode-line-numbers" [] scopeWindow .window
    copyModeLineNumbersChoices (scalar "off") "" false effectRender,
  option .copyModeLineNumberStyle "copy-mode-line-number-style" [] scopeWindow .window .string
    (scalar "fg=white,dim") "," false (effectRender ||| effectStyleParse),
  option .copyModeCurrentLineNumberStyle "copy-mode-current-line-number-style" [] scopeWindow
    .window .string (scalar "fg=yellow") "," false (effectRender ||| effectStyleParse),
  option .copyModePositionFormat "copy-mode-position-format" [] (scopeWindow ||| scopePane)
    .window .string
    (scalar ("#[align=right]#{t/p:top_line_time}#{?#{e|>:#{top_line_time},0}, ,}" ++
      "[#{copy_position}/#{copy_position_limit}]" ++
      "#\x7b?search_timed_out, (timed out),#\x7b?search_count, (#{search_count}" ++
      "#\x7b?search_count_partial,+,\x7d results),\x7d\x7d"))
    "" false effectRender,
  option .copyModePositionStyle "copy-mode-position-style" [] scopeWindow .window .string
    (scalar "#{E:mode-style}") "," false (effectRender ||| effectStyleParse),
  option .copyModeSelectionStyle "copy-mode-selection-style" [] scopeWindow .window .string
    (scalar "#{E:mode-style}") "," false (effectRender ||| effectStyleParse),
  option .fillCharacter "fill-character" [] scopeWindow .window .string (scalar "") "" false
    (effectRender ||| effectFillCharacter),
  option .mainPaneHeight "main-pane-height" [] scopeWindow .window .string (scalar "24") "" false
    effectNone,
  option .mainPaneWidth "main-pane-width" [] scopeWindow .window .string (scalar "80") "" false
    effectNone,
  option .modeKeys "mode-keys" [] scopeWindow .window modeKeysChoices (scalar "emacs") "" false
    effectNone,
  option .modeStyle "mode-style" [] scopeWindow .window .string
    (scalar "noattr,bg=yellow,fg=black") "," false (effectRender ||| effectStyleParse),
  option .monitorActivity "monitor-activity" [] scopeWindow .window .flag (scalar "off") "" false
    effectNone,
  option .monitorBell "monitor-bell" [] scopeWindow .window .flag (scalar "on") "" false
    effectNone,
  option .monitorSilence "monitor-silence" [] scopeWindow .window (.number 0) (scalar "0") ""
    false (effectRender ||| effectAlerts),
  option .otherPaneHeight "other-pane-height" [] scopeWindow .window .string (scalar "0") "" false
    effectNone,
  option .otherPaneWidth "other-pane-width" [] scopeWindow .window .string (scalar "0") "" false
    effectNone,
  option .paneActiveBorderStyle "pane-active-border-style" [] (scopeWindow ||| scopePane) .window
    .string
    (scalar "#{?pane_in_mode,fg=yellow,#{?synchronize-panes,fg=red,fg=green}}") ","
    false (effectRender ||| effectStyleParse),
  option .paneBaseIndex "pane-base-index" [] scopeWindow .window (.number 0) (scalar "0") "" false
    effectNone,
  option .paneBorderFormat "pane-border-format" [] (scopeWindow ||| scopePane) .window .string
    (scalar "#{?pane_active,#[reverse],}#{pane_index}#[default] \"#{pane_title}\"") ""
    false effectRender,
  option .paneBorderIndicators "pane-border-indicators" [] scopeWindow .window
    paneBorderIndicatorsChoices (scalar "colour") "" false effectRender,
  option .paneBorderLines "pane-border-lines" [] scopeWindow .window paneBorderLinesChoices
    (scalar "single") "" false effectRender,
  option .paneBorderStatus "pane-border-status" [] scopeWindow .window paneStatusChoices
    (scalar "off") "" false (effectRender ||| effectLayout),
  option .paneBorderStyle "pane-border-style" [] (scopeWindow ||| scopePane) .window .string
    (scalar "default") "," false (effectRender ||| effectStyleParse),
  option .paneColours "pane-colours" ["pane-colors"] (scopeWindow ||| scopePane) .window .colour
    (scalar "") "," true (effectRender ||| effectPaneColours),
  option .paneScrollbars "pane-scrollbars" [] scopeWindow .window paneScrollbarsChoices
    (scalar "off") "" false (effectRender ||| effectLayout),
  option .paneScrollbarsStyle "pane-scrollbars-style" [] (scopeWindow ||| scopePane) .window
    .string (scalar "bg=black,fg=white,width=1,pad=0") "," false
    (effectRender ||| effectStyleParse ||| effectLayout ||| effectScrollbarStyle),
  option .paneScrollbarsPosition "pane-scrollbars-position" [] scopeWindow .window
    paneScrollbarsPositionChoices (scalar "right") "" false (effectRender ||| effectLayout),
  option .popupStyle "popup-style" [] scopeWindow .window .string (scalar "default") "," false
    (effectRender ||| effectStyleParse),
  option .popupBorderStyle "popup-border-style" [] scopeWindow .window .string (scalar "default")
    "," false (effectRender ||| effectStyleParse),
  option .popupBorderLines "popup-border-lines" [] scopeWindow .window popupBorderLinesChoices
    (scalar "single") "" false effectRender,
  option .remainOnExit "remain-on-exit" [] (scopeWindow ||| scopePane) .window remainOnExitChoices
    (scalar "off") "" false effectRender,
  option .remainOnExitFormat "remain-on-exit-format" [] (scopeWindow ||| scopePane) .window
    .string
    (scalar ("Pane is dead (#{?#{!=:#{pane_dead_status},},status #{pane_dead_status},}" ++
      "#{?#{!=:#{pane_dead_signal},},signal #{pane_dead_signal},}, #{t:pane_dead_time})"))
    "" false effectRender,
  option .scrollOnClear "scroll-on-clear" [] (scopeWindow ||| scopePane) .window .flag
    (scalar "on") "" false effectRender,
  option .synchronizePanes "synchronize-panes" [] (scopeWindow ||| scopePane) .window .flag
    (scalar "off") "" false effectNone,
  option .tiledLayoutMaxColumns "tiled-layout-max-columns" [] scopeWindow .window (.number 0)
    (scalar "0") "" false effectNone,
  option .windowActiveStyle "window-active-style" [] (scopeWindow ||| scopePane) .window .string
    (scalar "default") "," false (effectRender ||| effectStyleParse ||| effectPaneStyle),
  option .windowSize "window-size" [] scopeWindow .window windowSizeChoices (scalar "latest") ""
    false effectLayout,
  option .windowStyle "window-style" [] (scopeWindow ||| scopePane) .window .string
    (scalar "default") "," false (effectRender ||| effectStyleParse ||| effectPaneStyle),
  option .windowStatusActivityStyle "window-status-activity-style" [] scopeWindow .window .string
    (scalar "reverse") "," false (effectRender ||| effectStyleParse),
  option .windowStatusBellStyle "window-status-bell-style" [] scopeWindow .window .string
    (scalar "reverse") "," false (effectRender ||| effectStyleParse),
  option .windowStatusCurrentFormat "window-status-current-format" [] scopeWindow .window .string
    (scalar "#I:#W#{?window_flags,#{window_flags}, }") "" false effectRender,
  option .windowStatusCurrentStyle "window-status-current-style" [] scopeWindow .window .string
    (scalar "default") "," false (effectRender ||| effectStyleParse),
  option .windowStatusFormat "window-status-format" [] scopeWindow .window .string
    (scalar "#I:#W#{?window_flags,#{window_flags}, }") "" false effectRender,
  option .windowStatusLastStyle "window-status-last-style" [] scopeWindow .window .string
    (scalar "default") "," false (effectRender ||| effectStyleParse),
  option .windowStatusSeparator "window-status-separator" [] scopeWindow .window .string
    (scalar " ") "" false effectRender,
  option .windowStatusStyle "window-status-style" [] scopeWindow .window .string
    (scalar "default") "," false (effectRender ||| effectStyleParse),
  option .wrapSearch "wrap-search" [] scopeWindow .window .flag (scalar "on") "" false
    effectRender,
  option .xtermKeys "xterm-keys" [] scopeWindow .window .flag (scalar "on") "" false effectNone]

end OptionTable

/-! ## Names -/

/-- Why an option is not set. -/
inductive OptionError
  | server (text : Text)
  | invalidSetOption (text : Text)
deriving DecidableEq

/-- Why no row is found. -/
inductive OptionLookupError
  | invalidName (name : Text)
  | ambiguousPrefix (name : Text)
  | invalidIndexSyntax (name : Text)
  | userOptionArrayIndex (name : Text)
deriving DecidableEq

def OptionLookupError.intoRmuxError : OptionLookupError → OptionError
  | .invalidName name => .server ("invalid option: ".toList ++ name)
  | .ambiguousPrefix name => .server ("ambiguous option: ".toList ++ name)
  | .invalidIndexSyntax name => .server ("invalid option index syntax: ".toList ++ name)
  | .userOptionArrayIndex name =>
    .server ("user option does not support array indexes: ".toList ++ name)

/-- The number of an array item, of 32 bits. -/
abbrev ArrayIndex := Fin 4294967296

instance ArrayIndex.neZero : NeZero 4294967296 := ⟨by decide⟩

/-- An option, and the number of one of its items. -/
structure OptionQuery where
  name : Text
  metadata : Option OptionMetadata
  index : Option ArrayIndex
deriving DecidableEq

namespace OptionQuery

variable (query : OptionQuery)

def knownOption : Option OptionName := query.metadata.map OptionMetadata.option

def isUser : Bool := query.metadata.isNone

def isArray : Bool := (query.metadata.map OptionMetadata.isArray).getD false

def valueType : OptionValueType := (query.metadata.map OptionMetadata.valueType).getD .string

def separator : Text := (query.metadata.map OptionMetadata.separator).getD []

def defaultValue : Option DefaultValue := query.metadata.map OptionMetadata.default

def effects : OptionChangeMask := (query.metadata.map OptionMetadata.effects).getD effectPaneStyle

end OptionQuery

/-- The rows are put into maps, where a later row would replace an earlier one. -/
def lookupRow (p : OptionMetadata → Bool) : Option OptionMetadata :=
  (OptionTable.options.filter p).getLast?

def optionMetadata (option : OptionName) : Option OptionMetadata :=
  lookupRow fun metadata => metadata.option = option

/-- The query of a known option. `none` if the option has no row. -/
def OptionQuery.known (option : OptionName) : Option OptionQuery :=
  (optionMetadata option).map fun metadata => ⟨metadata.name, some metadata, none⟩

/-- The text before and after the last `[`. -/
def splitAtLastBracket (name : Text) : Option (Text × Text) :=
  if '[' ∈ name then
    some (((name.rdropWhile (· ≠ '[')).dropLast, name.rtakeWhile (· ≠ '[')))
  else none

def splitArrayIndexTyped (name : Text) : Except OptionLookupError (Text × Option ArrayIndex) :=
  match splitAtLastBracket name with
  | none => if ']' ∈ name then .error (.invalidIndexSyntax name) else .ok (name, none)
  | some (baseName, tail) =>
    if name.getLast? ≠ some ']' then .error (.invalidIndexSyntax name)
    else if baseName = [] ∨ tail.dropLast = [] then .error (.invalidIndexSyntax name)
    else
      match parseUnsigned u32Max tail.dropLast with
      | none => .error (.invalidIndexSyntax name)
      | some index => .ok (baseName, some (Fin.ofNat _ index))

/-- A row that a name stands for exactly. -/
def exactRow (baseName : Text) : Option OptionMetadata :=
  (lookupRow fun metadata => metadata.name = baseName).or
    (lookupRow fun metadata => metadata.aliases.contains baseName)

/-- Rows that follow each other and have the same name are one. -/
def dedupRows (rows : List OptionMetadata) : List OptionMetadata :=
  rows.destutter fun a b => a.name ≠ b.name

def resolveOptionNameTyped (name : Text) : Except OptionLookupError OptionQuery :=
  match splitArrayIndexTyped name with
  | .error error => .error error
  | .ok (baseName, index) =>
    if baseName.head? = some '@' then
      if index.isSome then .error (.userOptionArrayIndex name) else .ok ⟨baseName, none, none⟩
    else
      match exactRow baseName with
      | some metadata => .ok ⟨metadata.name, some metadata, index⟩
      | none =>
        match dedupRows (OptionTable.options.filter fun metadata =>
            baseName.isPrefixOf metadata.name || metadata.aliases.any baseName.isPrefixOf) with
        | [metadata] => .ok ⟨metadata.name, some metadata, index⟩
        | [] => .error (.invalidName baseName)
        | _ => .error (.ambiguousPrefix baseName)

def resolveOptionName (name : Text) : Except OptionError OptionQuery :=
  (resolveOptionNameTyped name).mapError OptionLookupError.intoRmuxError

def resolveExactOptionName (name : Text) : Except OptionError OptionQuery :=
  match splitArrayIndexTyped name with
  | .error error => .error error.intoRmuxError
  | .ok (baseName, index) =>
    if baseName.head? = some '@' then
      if index.isSome then
        .error (.server ("user option does not support array indexes: ".toList ++ name))
      else .ok ⟨baseName, none, none⟩
    else
      match exactRow baseName with
      | some metadata => .ok ⟨metadata.name, some metadata, index⟩
      | none => .error (.server ("invalid option: ".toList ++ baseName))

end Rmux
