import CompositorConf.Catalog.Basic

namespace CompositorConf.Catalog.Standard

def misc : SectionDefinition where
  path := ["misc"]
  declarations := [
    { name := "disable_hyprland_logo"
      description := "disables the random Hyprland logo / anime girl background. :("
      typeName := "bool"
      defaultText := none },
    { name := "disable_splash_rendering"
      description := "disables the Hyprland splash rendering. (requires a monitor reload " ++
        "to take effect)"
      typeName := "bool"
      defaultText := none },
    { name := "col.splash"
      description := "Changes the color of the splash text (requires a monitor reload to " ++
        "take effect)."
      typeName := "color"
      defaultText := none },
    { name := "font_family"
      description := "Set the global default font to render the text including debug " ++
        "fps/notification, config error messages and etc., selected from system fonts."
      typeName := "str"
      defaultText := none },
    { name := "splash_font_family"
      description := "Changes the font used to render the splash text, selected from " ++
        "system fonts (requires a monitor reload to take effect)."
      typeName := "str"
      defaultText := none },
    { name := "force_default_wallpaper"
      description := "Enforce any of the 3 default wallpapers. Setting this to 0 or 1 " ++
        "disables the anime background. -1 means \"random\". [-1/0/1/2]"
      typeName := "int"
      defaultText := none },
    { name := "vfr"
      description := "controls the VFR status of Hyprland. Heavily recommended to leave " ++
        "enabled to conserve resources."
      typeName := "bool"
      defaultText := none },
    { name := "vrr"
      description := "controls the VRR (Adaptive Sync) of your monitors. 0 - off, 1 - " ++
        "on, 2 - fullscreen only [0/1/2]"
      typeName := "int"
      defaultText := none },
    { name := "mouse_move_enables_dpms"
      description := "If DPMS is set to off, wake up the monitors if the mouse moves."
      typeName := "bool"
      defaultText := none },
    { name := "key_press_enables_dpms"
      description := "If DPMS is set to off, wake up the monitors if a key is pressed."
      typeName := "bool"
      defaultText := none },
    { name := "always_follow_on_dnd"
      description := "Will make mouse focus follow the mouse when drag and dropping. " ++
        "Recommended to leave it enabled, especially for people using focus follows " ++
        "mouse at 0."
      typeName := "bool"
      defaultText := none },
    { name := "layers_hog_keyboard_focus"
      description := "If true, will make keyboard-interactive layers keep their focus on " ++
        "mouse move (e.g. wofi, bemenu)"
      typeName := "bool"
      defaultText := none },
    { name := "animate_manual_resizes"
      description := "If true, will animate manual window resizes/moves"
      typeName := "bool"
      defaultText := none },
    { name := "animate_mouse_windowdragging"
      description := "If true, will animate windows being dragged by mouse, note that " ++
        "this can cause weird behavior on some curves"
      typeName := "bool"
      defaultText := none },
    { name := "disable_autoreload"
      description := "If true, the config will not reload automatically on save, and " ++
        "instead needs to be reloaded with hyprctl reload. Might save on battery."
      typeName := "bool"
      defaultText := none },
    { name := "enable_swallow"
      description := "Enable window swallowing"
      typeName := "bool"
      defaultText := none },
    { name := "swallow_regex"
      description := "The class regex to be used for windows that should be swallowed " ++
        "(usually, a terminal). To know more about the list of regex which can be used " ++
        "use this cheatsheet."
      typeName := "str"
      defaultText := none },
    { name := "swallow_exception_regex"
      description := "The title regex to be used for windows that should not be " ++
        "swallowed by the windows specified in swallow_regex  (e.g. wev). The regex is " ++
        "matched against the parent (e.g. Kitty) window's title on the assumption that " ++
        "it changes to whatever process it's running."
      typeName := "str"
      defaultText := none },
    { name := "focus_on_activate"
      description := "Whether Hyprland should focus an app that requests to be focused " ++
        "(an activate request)"
      typeName := "bool"
      defaultText := none },
    { name := "mouse_move_focuses_monitor"
      description := "Whether mouse moving into a different monitor should focus it"
      typeName := "bool"
      defaultText := none },
    { name := "render_ahead_of_time"
      description := "[Warning: buggy] starts rendering before your monitor displays a " ++
        "frame in order to lower latency"
      typeName := "bool"
      defaultText := none },
    { name := "render_ahead_safezone"
      description := "how many ms of safezone to add to rendering ahead of time. " ++
        "Recommended 1-2."
      typeName := "int"
      defaultText := none },
    { name := "allow_session_lock_restore"
      description := "if true, will allow you to restart a lockscreen app in case it " ++
        "crashes (red screen of death)"
      typeName := "bool"
      defaultText := none },
    { name := "background_color"
      description := "change the background color. (requires enabled " ++
        "disable_hyprland_logo)"
      typeName := "color"
      defaultText := none },
    { name := "close_special_on_empty"
      description := "close the special workspace if the last window is removed"
      typeName := "bool"
      defaultText := none },
    { name := "new_window_takes_over_fullscreen"
      description := "if there is a fullscreen or maximized window, decide whether a new " ++
        "tiled window opened should replace it, stay behind or disable the " ++
        "fullscreen/maximized state. 0 - behind, 1 - takes over, 2 - " ++
        "unfullscreen/unmaxize [0/1/2]"
      typeName := "int"
      defaultText := none },
    { name := "exit_window_retains_fullscreen"
      description := "if true, closing a fullscreen window makes the next focused window " ++
        "fullscreen"
      typeName := "bool"
      defaultText := none },
    { name := "initial_workspace_tracking"
      description := "if enabled, windows will open on the workspace they were invoked " ++
        "on. 0 - disabled, 1 - single-shot, 2 - persistent (all children too)"
      typeName := "int"
      defaultText := none },
    { name := "middle_click_paste"
      description := "whether to enable middle-click-paste (aka primary selection)"
      typeName := "bool"
      defaultText := none },
    { name := "render_unfocused_fps"
      description := "the maximum limit for renderunfocused windows' fps in the " ++
        "background (see also Window-Rules - renderunfocused)"
      typeName := "int"
      defaultText := none },
    { name := "disable_xdg_env_checks"
      description := "disable the warning if XDG environment is externally managed"
      typeName := "bool"
      defaultText := none },
    { name := "disable_hyprland_qtutils_check"
      description := "disable the warning if hyprland-qtutils is not installed"
      typeName := "bool"
      defaultText := none },
    { name := "lockdead_screen_delay"
      description := "the delay in ms after the lockdead screen appears if the lock " ++
        "screen did not appear after a lock event occurred"
      typeName := "int"
      defaultText := none }]

def xwayland : SectionDefinition where
  path := ["xwayland"]
  declarations := [
    { name := "enabled"
      description := "allow running applications using X11"
      typeName := "bool"
      defaultText := none },
    { name := "use_nearest_neighbor"
      description := "uses the nearest neighbor filtering for xwayland apps, making them " ++
        "pixelated rather than blurry"
      typeName := "bool"
      defaultText := none },
    { name := "force_zero_scaling"
      description := "forces a scale of 1 on xwayland windows on scaled displays."
      typeName := "bool"
      defaultText := none }]

def opengl : SectionDefinition where
  path := ["opengl"]
  declarations := [
    { name := "nvidia_anti_flicker"
      description := "reduces flickering on nvidia at the cost of possible frame drops " ++
        "on lower-end GPUs. On non-nvidia, this is ignored."
      typeName := "bool"
      defaultText := none },
    { name := "force_introspection"
      description := "forces introspection at all times. Introspection is aimed at " ++
        "reducing GPU usage in certain cases, but might cause graphical glitches on " ++
        "nvidia. 0 - nothing, 1 - force always on, 2 - force always on if nvidia"
      typeName := "int"
      defaultText := none }]

def render : SectionDefinition where
  path := ["render"]
  declarations := [
    { name := "explicit_sync"
      description := "Whether to enable explicit sync support. Requires a hyprland " ++
        "restart. 0 - no, 1 - yes, 2 - auto based on the gpu driver"
      typeName := "int"
      defaultText := none },
    { name := "explicit_sync_kms"
      description := "Whether to enable explicit sync support for the KMS layer. " ++
        "Requires explicit_sync to be enabled. 0 - no, 1 - yes, 2 - auto based on the " ++
        "gpu driver"
      typeName := "int"
      defaultText := none },
    { name := "direct_scanout"
      description := "Enables direct scanout. Direct scanout attempts to reduce lag when " ++
        "there is only one fullscreen application on a screen (e.g. game). It is also " ++
        "recommended to set this to false if the fullscreen application shows graphical " ++
        "glitches."
      typeName := "bool"
      defaultText := none },
    { name := "expand_undersized_textures"
      description := "Whether to expand undersized textures along the edge, or rather " ++
        "stretch the entire texture."
      typeName := "bool"
      defaultText := none },
    { name := "xp_mode"
      description := "Disables back buffer and bottom layer rendering."
      typeName := "bool"
      defaultText := none },
    { name := "ctm_animation"
      description := "Whether to enable a fade animation for CTM changes (hyprsunset). 2 " ++
        "means \"auto\" which disables them on Nvidia."
      typeName := "int"
      defaultText := none },
    { name := "allow_early_buffer_release"
      description := "Allow early buffer release event. Fixes stuttering and missing " ++
        "frames for some apps. May cause graphical glitches and memory leaks in others."
      typeName := "bool"
      defaultText := none }]

def ecosystem : SectionDefinition where
  path := ["ecosystem"]
  declarations := [
    { name := "no_update_news"
      description := "disable the popup that shows up when you update hyprland to a new " ++
        "version."
      typeName := "bool"
      defaultText := none },
    { name := "no_donation_nag"
      description := "disable the popup that shows up twice a year encouraging to " ++
        "donate."
      typeName := "bool"
      defaultText := none }]

def experimental : SectionDefinition where
  path := ["experimental"]
  declarations := [
    { name := "wide_color_gamut"
      description := "force wide color gamut for all supported outputs"
      typeName := "bool"
      defaultText := none },
    { name := "hdr"
      description := "force static hdr for all supported outputs (for testing only, will " ++
        "result in oversaturated colors)"
      typeName := "bool"
      defaultText := none },
    { name := "xx_color_management_v4"
      description := "enable color management protocol"
      typeName := "bool"
      defaultText := none }]

def debug : SectionDefinition where
  path := ["debug"]
  declarations := [
    { name := "overlay"
      description := "print the debug performance overlay. Disable VFR for accurate " ++
        "results."
      typeName := "bool"
      defaultText := none },
    { name := "damage_blink"
      description := "(epilepsy warning!) flash areas updated with damage tracking"
      typeName := "bool"
      defaultText := none },
    { name := "disable_logs"
      description := "disable logging to a file"
      typeName := "bool"
      defaultText := none },
    { name := "disable_time"
      description := "disables time logging"
      typeName := "bool"
      defaultText := none },
    { name := "damage_tracking"
      description := "redraw only the needed bits of the display. Do not change. " ++
        "(default: full - 2) monitor - 1, none - 0"
      typeName := "int"
      defaultText := none },
    { name := "enable_stdout_logs"
      description := "enables logging to stdout"
      typeName := "bool"
      defaultText := none },
    { name := "manual_crash"
      description := "set to 1 and then back to 0 to crash Hyprland."
      typeName := "int"
      defaultText := none },
    { name := "suppress_errors"
      description := "if true, do not display config file parsing errors."
      typeName := "bool"
      defaultText := none },
    { name := "watchdog_timeout"
      description := "sets the timeout in seconds for watchdog to abort processing of a " ++
        "signal of the main thread. Set to 0 to disable."
      typeName := "int"
      defaultText := none },
    { name := "disable_scale_checks"
      description := "disables verification of the scale factors. Will result in pixel " ++
        "alignment and rounding errors."
      typeName := "bool"
      defaultText := none },
    { name := "error_limit"
      description := "limits the number of displayed config file parsing errors."
      typeName := "int"
      defaultText := none },
    { name := "error_position"
      description := "sets the position of the error bar. top - 0, bottom - 1"
      typeName := "int"
      defaultText := none },
    { name := "colored_stdout_logs"
      description := "enables colors in the stdout logs."
      typeName := "bool"
      defaultText := none },
    { name := "pass"
      description := "enables render pass debugging."
      typeName := "bool"
      defaultText := none }]

end CompositorConf.Catalog.Standard
