import CompositorConf.Catalog.Basic

namespace CompositorConf.Catalog.Standard

def input : SectionDefinition where
  path := ["input"]
  declarations := [
    { name := "kb_model"
      description := "Appropriate XKB keymap parameter. See the note below."
      typeName := "str"
      defaultText := none },
    { name := "kb_layout"
      description := "Appropriate XKB keymap parameter"
      typeName := "str"
      defaultText := none },
    { name := "kb_variant"
      description := "Appropriate XKB keymap parameter"
      typeName := "str"
      defaultText := none },
    { name := "kb_options"
      description := "Appropriate XKB keymap parameter"
      typeName := "str"
      defaultText := none },
    { name := "kb_rules"
      description := "Appropriate XKB keymap parameter"
      typeName := "str"
      defaultText := none },
    { name := "kb_file"
      description := "If you prefer, you can use a path to your custom .xkb file."
      typeName := "str"
      defaultText := none },
    { name := "numlock_by_default"
      description := "Engage numlock by default."
      typeName := "bool"
      defaultText := none },
    { name := "resolve_binds_by_sym"
      description := "Determines how keybinds act when multiple layouts are used. If " ++
        "false, keybinds will always act as if the first specified layout is active. If " ++
        "true, keybinds specified by symbols are activated when you type the respective " ++
        "symbol with the current layout."
      typeName := "bool"
      defaultText := none },
    { name := "repeat_rate"
      description := "The repeat rate for held-down keys, in repeats per second."
      typeName := "int"
      defaultText := none },
    { name := "repeat_delay"
      description := "Delay before a held-down key is repeated, in milliseconds."
      typeName := "int"
      defaultText := none },
    { name := "sensitivity"
      description := "Sets the mouse input sensitivity. Value is clamped to the range " ++
        "-1.0 to 1.0. libinput#pointer-acceleration"
      typeName := "float"
      defaultText := none },
    { name := "accel_profile"
      description := "Sets the cursor acceleration profile. Can be one of adaptive, " ++
        "flat. Can also be custom, see below. Leave empty to use libinput's default mode " ++
        "for your input device. libinput#pointer-acceleration [adaptive/flat/custom]"
      typeName := "str"
      defaultText := none },
    { name := "force_no_accel"
      description := "Force no cursor acceleration. This bypasses most of your pointer " ++
        "settings to get as raw of a signal as possible. Enabling this is not " ++
        "recommended due to potential cursor desynchronization."
      typeName := "bool"
      defaultText := none },
    { name := "left_handed"
      description := "Switches RMB and LMB"
      typeName := "bool"
      defaultText := none },
    { name := "scroll_points"
      description := "Sets the scroll acceleration profile, when accel_profile is set to " ++
        "custom. Has to be in the form <step> <points>. Leave empty to have a flat " ++
        "scroll curve."
      typeName := "str"
      defaultText := none },
    { name := "scroll_method"
      description := "Sets the scroll method. Can be one of 2fg (2 fingers), edge, " ++
        "on_button_down, no_scroll. libinput#scrolling " ++
        "[2fg/edge/on_button_down/no_scroll]"
      typeName := "str"
      defaultText := none },
    { name := "scroll_button"
      description := "Sets the scroll button. Has to be an int, cannot be a string. " ++
        "Check wev if you have any doubts regarding the ID. 0 means default."
      typeName := "int"
      defaultText := none },
    { name := "scroll_button_lock"
      description := "If the scroll button lock is enabled, the button does not need to " ++
        "be held down. Pressing and releasing the button toggles the button lock, which " ++
        "logically holds the button down or releases it. While the button is logically " ++
        "held down, motion events are converted to scroll events."
      typeName := "bool"
      defaultText := none },
    { name := "scroll_factor"
      description := "Multiplier added to scroll movement for external mice. Note that " ++
        "there is a separate setting for touchpad scroll_factor."
      typeName := "float"
      defaultText := none },
    { name := "natural_scroll"
      description := "Inverts scrolling direction. When enabled, scrolling moves content " ++
        "directly, rather than manipulating a scrollbar."
      typeName := "bool"
      defaultText := none },
    { name := "follow_mouse"
      description := "Specify if and how cursor movement should affect window focus. See " ++
        "the note below. [0/1/2/3]"
      typeName := "int"
      defaultText := none },
    { name := "focus_on_close"
      description := "Controls the window focus behavior when a window is closed. When " ++
        "set to 0, focus will shift to the next window candidate. When set to 1, focus " ++
        "will shift to the window under the cursor. [0/1]"
      typeName := "int"
      defaultText := none },
    { name := "mouse_refocus"
      description := "If disabled, mouse focus won't switch to the hovered window unless " ++
        "the mouse crosses a window boundary when follow_mouse=1."
      typeName := "bool"
      defaultText := none },
    { name := "float_switch_override_focus"
      description := "If enabled (1 or 2), focus will change to the window under the " ++
        "cursor when changing from tiled-to-floating and vice versa. If 2, focus will " ++
        "also follow mouse on float-to-float switches."
      typeName := "int"
      defaultText := none },
    { name := "special_fallthrough"
      description := "if enabled, having only floating windows in the special workspace " ++
        "will not block focusing windows in the regular workspace."
      typeName := "bool"
      defaultText := none },
    { name := "off_window_axis_events"
      description := "Handles axis events around (gaps/border for tiled, dragarea/border " ++
        "for floated) a focused window. 0 ignores axis events 1 sends out-of-bound " ++
        "coordinates 2 fakes pointer coordinates to the closest point inside the window " ++
        "3 warps the cursor to the closest point inside the window"
      typeName := "int"
      defaultText := none },
    { name := "emulate_discrete_scroll"
      description := "Emulates discrete scrolling from high resolution scrolling events. " ++
        "0 disables it, 1 enables handling of non-standard events only, and 2 force " ++
        "enables all scroll wheel events to be handled"
      typeName := "int"
      defaultText := none }]

def gestures : SectionDefinition where
  path := ["gestures"]
  declarations := [
    { name := "workspace_swipe"
      description := "enable workspace swipe gesture on touchpad"
      typeName := "bool"
      defaultText := none },
    { name := "workspace_swipe_fingers"
      description := "how many fingers for the touchpad gesture"
      typeName := "int"
      defaultText := none },
    { name := "workspace_swipe_min_fingers"
      description := "if enabled, workspace_swipe_fingers is considered the minimum " ++
        "number of fingers to swipe"
      typeName := "bool"
      defaultText := none },
    { name := "workspace_swipe_distance"
      description := "in px, the distance of the touchpad gesture"
      typeName := "int"
      defaultText := none },
    { name := "workspace_swipe_touch"
      description := "enable workspace swiping from the edge of a touchscreen"
      typeName := "bool"
      defaultText := none },
    { name := "workspace_swipe_invert"
      description := "invert the direction (touchpad only)"
      typeName := "bool"
      defaultText := none },
    { name := "workspace_swipe_touch_invert"
      description := "invert the direction (touchscreen only)"
      typeName := "bool"
      defaultText := none },
    { name := "workspace_swipe_min_speed_to_force"
      description := "minimum speed in px per timepoint to force the change ignoring " ++
        "cancel_ratio. Setting to 0 will disable this mechanic."
      typeName := "int"
      defaultText := none },
    { name := "workspace_swipe_cancel_ratio"
      description := "how much the swipe has to proceed in order to commence it. (0.7 -> " ++
        "if > 0.7 * distance, switch, if less, revert) [0.0 - 1.0]"
      typeName := "float"
      defaultText := none },
    { name := "workspace_swipe_create_new"
      description := "whether a swipe right on the last workspace should create a new " ++
        "one."
      typeName := "bool"
      defaultText := none },
    { name := "workspace_swipe_direction_lock"
      description := "if enabled, switching direction will be locked when you swipe past " ++
        "the direction_lock_threshold (touchpad only)."
      typeName := "bool"
      defaultText := none },
    { name := "workspace_swipe_direction_lock_threshold"
      description := "in px, the distance to swipe before direction lock activates " ++
        "(touchpad only)."
      typeName := "int"
      defaultText := none },
    { name := "workspace_swipe_forever"
      description := "if enabled, swiping will not clamp at the neighboring workspaces " ++
        "but continue to the further ones."
      typeName := "bool"
      defaultText := none },
    { name := "workspace_swipe_use_r"
      description := "if enabled, swiping will use the r prefix instead of the m prefix " ++
        "for finding workspaces."
      typeName := "bool"
      defaultText := none }]

def binds : SectionDefinition where
  path := ["binds"]
  declarations := [
    { name := "pass_mouse_when_bound"
      description := "if disabled, will not pass the mouse events to apps / dragging " ++
        "windows around if a keybind has been triggered."
      typeName := "bool"
      defaultText := none },
    { name := "scroll_event_delay"
      description := "in ms, how many ms to wait after a scroll event to allow passing " ++
        "another one for the binds."
      typeName := "int"
      defaultText := none },
    { name := "workspace_back_and_forth"
      description := "If enabled, an attempt to switch to the currently focused " ++
        "workspace will instead switch to the previous workspace. Akin to i3's " ++
        "auto_back_and_forth."
      typeName := "bool"
      defaultText := none },
    { name := "allow_workspace_cycles"
      description := "If enabled, workspaces don't forget their previous workspace, so " ++
        "cycles can be created by switching to the first workspace in a sequence, then " ++
        "endlessly going to the previous workspace."
      typeName := "bool"
      defaultText := none },
    { name := "workspace_center_on"
      description := "Whether switching workspaces should center the cursor on the " ++
        "workspace (0) or on the last active window for that workspace (1)"
      typeName := "int"
      defaultText := none },
    { name := "focus_preferred_method"
      description := "sets the preferred focus finding method when using " ++
        "focuswindow/movewindow/etc with a direction. 0 - history (recent have " ++
        "priority), 1 - length (longer shared edges have priority)"
      typeName := "int"
      defaultText := none },
    { name := "ignore_group_lock"
      description := "If enabled, dispatchers like moveintogroup, moveoutofgroup and " ++
        "movewindoworgroup will ignore lock per group."
      typeName := "bool"
      defaultText := none },
    { name := "movefocus_cycles_fullscreen"
      description := "If enabled, when on a fullscreen window, movefocus will cycle " ++
        "fullscreen, if not, it will move the focus in a direction."
      typeName := "bool"
      defaultText := none },
    { name := "movefocus_cycles_groupfirst"
      description := "If enabled, when in a grouped window, movefocus will cycle windows " ++
        "in the groups first, then at each ends of tabs, it'll move on to other " ++
        "windows/groups"
      typeName := "bool"
      defaultText := none },
    { name := "disable_keybind_grabbing"
      description := "If enabled, apps that request keybinds to be disabled (e.g. VMs) " ++
        "will not be able to do so."
      typeName := "bool"
      defaultText := none },
    { name := "window_direction_monitor_fallback"
      description := "If enabled, moving a window or focus over the edge of a monitor " ++
        "with a direction will move it to the next monitor in that direction."
      typeName := "bool"
      defaultText := none },
    { name := "allow_pin_fullscreen"
      description := "If enabled, Allow fullscreen to pinned windows, and restore their " ++
        "pinned status afterwards"
      typeName := "bool"
      defaultText := none }]

def cursor : SectionDefinition where
  path := ["cursor"]
  declarations := [
    { name := "sync_gsettings_theme"
      description := "sync xcursor theme with gsettings, it applies cursor-theme and " ++
        "cursor-size on theme load to gsettings making most CSD gtk based clients use " ++
        "same xcursor theme and size."
      typeName := "bool"
      defaultText := none },
    { name := "no_hardware_cursors"
      description := "disables hardware cursors."
      typeName := "bool"
      defaultText := none },
    { name := "no_break_fs_vrr"
      description := "disables scheduling new frames on cursor movement for fullscreen " ++
        "apps with VRR enabled to avoid framerate spikes (requires no_hardware_cursors = " ++
        "true)"
      typeName := "bool"
      defaultText := none },
    { name := "min_refresh_rate"
      description := "minimum refresh rate for cursor movement when no_break_fs_vrr is " ++
        "active. Set to minimum supported refresh rate or higher"
      typeName := "int"
      defaultText := none },
    { name := "hotspot_padding"
      description := "the padding, in logical px, between screen edges and the cursor"
      typeName := "int"
      defaultText := none },
    { name := "inactive_timeout"
      description := "in seconds, after how many seconds of cursor's inactivity to hide " ++
        "it. Set to 0 for never."
      typeName := "float"
      defaultText := none },
    { name := "no_warps"
      description := "if true, will not warp the cursor in many cases (focusing, " ++
        "keybinds, etc)"
      typeName := "bool"
      defaultText := none },
    { name := "persistent_warps"
      description := "When a window is refocused, the cursor returns to its last " ++
        "position relative to that window, rather than to the centre."
      typeName := "bool"
      defaultText := none },
    { name := "warp_on_change_workspace"
      description := "Move the cursor to the last focused window after changing the " ++
        "workspace. Options: 0 (Disabled), 1 (Enabled), 2 (Force - ignores " ++
        "cursor:no_warps option)"
      typeName := "int"
      defaultText := none },
    { name := "default_monitor"
      description := "the name of a default monitor for the cursor to be set to on " ++
        "startup (see hyprctl monitors for names)"
      typeName := "str"
      defaultText := none },
    { name := "zoom_factor"
      description := "the factor to zoom by around the cursor. Like a magnifying glass. " ++
        "Minimum 1.0 (meaning no zoom)"
      typeName := "float"
      defaultText := none },
    { name := "zoom_rigid"
      description := "whether the zoom should follow the cursor rigidly (cursor is " ++
        "always centered if it can be) or loosely"
      typeName := "bool"
      defaultText := none },
    { name := "enable_hyprcursor"
      description := "whether to enable hyprcursor support"
      typeName := "bool"
      defaultText := none },
    { name := "hide_on_key_press"
      description := "Hides the cursor when you press any key until the mouse is moved."
      typeName := "bool"
      defaultText := none },
    { name := "hide_on_touch"
      description := "Hides the cursor when the last input was a touch input until a " ++
        "mouse input is done."
      typeName := "bool"
      defaultText := none },
    { name := "use_cpu_buffer"
      description := "Makes HW cursors use a CPU buffer. Required on Nvidia to have HW " ++
        "cursors. 0 - off, 1 - on, 2 - auto (nvidia only)"
      typeName := "int"
      defaultText := none },
    { name := "warp_back_after_non_mouse_input"
      description := "Warp the cursor back to where it was after using a non-mouse input " ++
        "to move it, and then returning back to mouse."
      typeName := "bool"
      defaultText := none }]

end CompositorConf.Catalog.Standard
